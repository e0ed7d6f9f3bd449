import Wireframe.Proofs.DraftForest

/-!
# Ranges nest

The ranges of a source map are a forest in the order of the text: entries start one after the other,
each lies between the braces of its parent, siblings do not overlap, and an entry covers all of its
parts. This is so by byte offset as well as by line and column, since within a text both measures
order the same way.

## Main definitions

* `Position.NoLater`, `Position.Ahead` — the order of positions, by both measures.
* `Entry.parentAmong`, `Entry.Encloses` — the parent of an entry, and what it is to lie between its
  braces.
* `SourceMap.Nested` — a source map of which the ranges nest.

## Main results

* `Hull.range_eq` — tokens that are united reach from the first one to the last one.
* `sourceMap_nested` — the ranges of the source map of a text nest.
-/

namespace Wireframe

/-! ### Both measures -/

/-- Not later than another position, by line and column as well as by byte offset. -/
structure Position.NoLater (p q : Position) : Prop where
  place : ¬ q.Before p
  bytes : ∃ o o', p.offset = some o ∧ q.offset = some o' ∧ o ≤ o'

/-- Earlier than another position, by line and column as well as by byte offset. -/
structure Position.Ahead (p q : Position) : Prop where
  place : p.Before q
  bytes : ∃ o o', p.offset = some o ∧ q.offset = some o' ∧ o < o'

/-- A range covers another one. -/
structure CodeRange.Covers (r s : CodeRange) : Prop where
  start : r.start.NoLater s.start
  stop : s.stop.NoLater r.stop

section Measures

variable {text : List Char} {o p : Nat} {s t : Span}

theorem noLater_position (first : Boundary text o) (second : Boundary text p) (le : o ≤ p) :
    ((LineIndex.ofText text).position o).NoLater ((LineIndex.ofText text).position p) where
  place := by
    rw [position_before_iff second first]
    omega
  bytes := ⟨o, p, offset_position first, offset_position second, le⟩

theorem ahead_position (first : Boundary text o) (second : Boundary text p) (lt : o < p) :
    ((LineIndex.ofText text).position o).Ahead ((LineIndex.ofText text).position p) where
  place := (position_before_iff first second).mpr lt
  bytes := ⟨o, p, offset_position first, offset_position second, lt⟩

theorem covers_range (outer : OnBoundaries text s) (inner : OnBoundaries text t)
    (start : s.start ≤ t.start) (stop : t.stop ≤ s.stop) :
    ((LineIndex.ofText text).range s).Covers ((LineIndex.ofText text).range t) where
  start := noLater_position outer.start inner.start start
  stop := noLater_position inner.stop outer.stop stop

end Measures

/-! ### Hulls -/

/-- The bytes from the first token of a hull to its last one. -/
def Hull.span (h : Hull) : Span :=
  ⟨h.first.span.start, h.last.span.stop⟩

section Hulls

variable {text : List Char} {h : Hull} {l : Lexeme}

theorem onBoundaries_of_mem (inside : l ∈ (scan text).lexemes) : OnBoundaries text l.span :=
  (stands_of_mem_lexemes inside).1.onBoundaries

theorem range_of_mem (inside : l ∈ (scan text).lexemes) :
    l.range = (LineIndex.ofText text).range l.span :=
  (stands_of_mem_lexemes inside).2

theorem Hull.onBoundaries (part : h.lexemes.Sublist (scan text).lexemes) :
    OnBoundaries text h.span where
  start := (onBoundaries_of_mem (part.subset List.mem_cons_self)).start
  stop := (onBoundaries_of_mem (part.subset h.last_mem)).stop

theorem Hull.getLast?_lexemes (h : Hull) : h.lexemes.getLast? = some h.last := by
  rw [lexemes, List.getLast?_cons]
  rfl

/-- Tokens of a text that are united reach from the first one to the last one. -/
theorem Hull.range_eq (part : h.lexemes.Sublist (scan text).lexemes) :
    h.range = (LineIndex.ofText text).range h.span := by
  obtain ⟨first, others⟩ := h
  -- Each token is united with the range of those before it, so the last one is taken off first.
  induction others using List.reverseRecOn with
  | nil => exact range_of_mem (part.subset List.mem_cons_self)
  | append_singleton others l ih =>
    have ordered := (scan_inSequence text).sublist part
    have shorter : (Hull.mk first others).lexemes.Sublist (Hull.mk first (others ++ [l])).lexemes :=
      (List.sublist_append_left others [l]).cons_cons first
    have inside : l ∈ (Hull.mk first (others ++ [l])).lexemes :=
      List.mem_cons_of_mem _ (List.mem_append_right _ List.mem_cons_self)
    have last : (Hull.mk first (others ++ [l])).last = l := by simp [Hull.last]
    have starts : first.span.start ≤ l.span.start := ordered.start_le rfl inside
    have stops : (Hull.mk first others).last.span.stop ≤ l.span.stop := by
      refine ordered.stop_le ?_ (shorter.subset (Hull.mk first others).last_mem)
      rw [Hull.getLast?_lexemes, last]
    have union : (Hull.mk first (others ++ [l])).span =
        (Hull.mk first others).span.union l.span := by
      rw [Hull.span, last, Span.union, Hull.span, Nat.min_eq_left starts, Nat.max_eq_right stops]
    have before := shorter.trans part
    have member := part.subset inside
    rw [union, ← range_union (Hull.onBoundaries before) (onBoundaries_of_mem member), ← ih before,
      ← range_of_mem member, Hull.range, List.foldl_append]
    rfl

end Hulls

/-! ### Entries -/

/-- The entry that a part lies in: of the entries before it, the closest one with the id of its
parent. Definitions of different names can share an id, so there may be others further away. -/
def Entry.parentAmong (e : Entry) (before : List Entry) : Option Entry :=
  before.reverse.find? (some ·.id == e.parent)

/-- The body of an entry stands between two braces of the text, and another entry lies between the
end of the first brace and the start of the second one. -/
def Entry.Encloses (lexemes : List Lexeme) (p e : Entry) : Prop :=
  ∃ opening ∈ lexemes, ∃ closing ∈ lexemes,
    opening.token = .mark .leftBrace ∧ closing.token = .mark .rightBrace ∧
      p.bodyRange = some ⟨opening.range.start, closing.range.stop⟩ ∧
      opening.range.stop.NoLater e.range.start ∧ e.range.stop.NoLater closing.range.start

/-- An entry covers its parts. Of settings the properties are left out, since later blocks only add
properties. -/
structure Entry.CoversParts (e : Entry) : Prop where
  keyword : e.range.Covers e.keywordRange
  name : ∀ r ∈ e.nameRange, e.range.Covers r
  body : ∀ r ∈ e.bodyRange, e.range.Covers r
  properties : e.kind.isSettings = false → ∀ m ∈ e.properties, ∀ p ∈ m.entries,
    e.range.Covers p.2.range ∧ e.range.Covers p.2.nameRange ∧ e.range.Covers p.2.valueRange

/-- The ranges of a source map nest. -/
structure SourceMap.Nested (map : SourceMap) (lexemes : List Lexeme) : Prop where
  /-- Entries start one after the other. -/
  starts : map.entries.Pairwise fun e f => e.range.start.Ahead f.range.start
  /-- Every entry but the first lies between the braces of its parent. -/
  inside : ∀ {before : List Entry} {e : Entry} {after : List Entry},
    map.entries = before ++ e :: after → before = [] ∧ e.parent = none ∨
      ∃ p, e.parentAmong before = some p ∧ Entry.Encloses lexemes p e
  /-- Of two entries the later one stands behind the earlier one or inside it. -/
  forest : map.entries.Pairwise fun e f =>
    e.range.stop.NoLater f.range.start ∨ e.range.Covers f.range
  /-- Of two entries with the same parent the later one stands behind the earlier one. -/
  siblings : map.entries.Pairwise fun e f =>
    e.parent = f.parent → e.range.stop.NoLater f.range.start
  /-- Every entry covers its parts. -/
  parts : ∀ e ∈ map.entries, e.CoversParts

/-- What a map holds after a write is what was written, or it was there under another key. -/
theorem OrderedMap.mem_of_mem_insert {α : Type} {m : OrderedMap α} {key : String} {value : α}
    {entry : String × α} (inside : entry ∈ (m.insert key value).entries) :
    entry = (key, value) ∨ entry ∈ m.entries ∧ entry.1 ≠ key := by
  unfold insert at inside
  split at inside
  · obtain ⟨old, held, rfl⟩ := List.mem_map.mp inside
    split
    · exact .inl rfl
    · next other => exact .inr ⟨held, other⟩
  · next absent =>
    rcases List.mem_append.mp inside with held | new
    · exact .inr ⟨held, fun same => absent (same ▸ List.mem_map_of_mem held)⟩
    · exact .inl (List.mem_singleton.mp new)

/-- What a map holds has been written to it, and its key has not been written again since. -/
theorem OrderedMap.exists_last_of_mem_ofList {α : Type} {writes : List (String × α)}
    {entry : String × α} (inside : entry ∈ (ofList writes).entries) :
    ∃ before after, writes = before ++ entry :: after ∧ ∀ w ∈ after, w.1 ≠ entry.1 := by
  induction writes using List.reverseRecOn with
  | nil => contradiction
  | append_singleton writes write ih =>
    rw [ofList, List.foldl_append] at inside
    rcases mem_of_mem_insert inside with rfl | ⟨held, other⟩
    · exact ⟨writes, [], rfl, fun _ none => absurd none List.not_mem_nil⟩
    · obtain ⟨before, after, rfl, unwritten⟩ := ih held
      refine ⟨before, after ++ [write], by simp, List.forall_mem_append.mpr ⟨unwritten, ?_⟩⟩
      exact List.forall_mem_singleton.mpr other.symm

theorem OrderedMap.mem_of_mem_ofList {α : Type} {writes : List (String × α)} {entry : String × α}
    (inside : entry ∈ (ofList writes).entries) : entry ∈ writes := by
  obtain ⟨before, after, rfl, -⟩ := exists_last_of_mem_ofList inside
  exact List.mem_append_right _ List.mem_cons_self

section Draft

variable {text : List Char} {d : Draft} {row : List Lexeme}

theorem Draft.Takes.covers (takes : d.Takes row) (part : row.Sublist (scan text).lexemes)
    (whole : d.whole.lexemes.Sublist (scan text).lexemes) {h : Hull}
    (held : h.lexemes.Sublist row) : d.whole.range.Covers h.range := by
  have ordered := (scan_inSequence text).sublist part
  rw [Hull.range_eq whole, Hull.range_eq (held.trans part)]
  refine covers_range (Hull.onBoundaries whole) (Hull.onBoundaries (held.trans part)) ?_ ?_
  · exact ordered.start_le takes.first (held.subset List.mem_cons_self)
  · exact ordered.stop_le takes.last (held.subset h.last_mem)

/-- The entry of a draft covers its parts. -/
theorem Draft.Takes.coversParts (takes : d.Takes row) (part : row.Sublist (scan text).lexemes)
    (whole : d.whole.lexemes.Sublist (scan text).lexemes) : d.entry.CoversParts where
  keyword := takes.covers part whole takes.keyword
  name := by
    intro r found
    obtain ⟨l, name, rfl⟩ := Option.map_eq_some_iff.mp found
    exact takes.covers (h := ⟨l, []⟩) part whole (List.singleton_sublist.mpr (takes.name l name))
  body := by
    intro r found
    obtain ⟨b, body, rfl⟩ := Option.map_eq_some_iff.mp found
    exact takes.covers (h := ⟨b.1, [b.2]⟩) part whole (takes.body b body)
  properties := by
    intro kind m found entry inside
    obtain ⟨ps, properties, rfl⟩ := Option.map_eq_some_iff.mp found
    obtain ⟨p, held, rfl⟩ := List.mem_map.mp (OrderedMap.mem_of_mem_ofList inside)
    have both := takes.properties kind ps properties p held
    have name : [p.written.name].Sublist row := (List.sublist_append_left _ _).trans both
    have value : [p.written.value].Sublist row := (List.sublist_cons_self _ _).trans both
    exact ⟨takes.covers (h := ⟨p.written.name, [p.written.value]⟩) part whole both,
      takes.covers (h := ⟨p.written.name, []⟩) part whole name,
      takes.covers (h := ⟨p.written.value, []⟩) part whole value⟩

end Draft

section Pairs

variable {text : List Char} {d e : Draft} (wholeD : d.whole.lexemes.Sublist (scan text).lexemes)
  (wholeE : e.whole.lexemes.Sublist (scan text).lexemes)

include wholeD wholeE

theorem ahead_of_start_lt (lt : d.whole.first.span.start < e.whole.first.span.start) :
    d.whole.range.start.Ahead e.whole.range.start := by
  rw [Hull.range_eq wholeD, Hull.range_eq wholeE]
  exact ahead_position (Hull.onBoundaries wholeD).start (Hull.onBoundaries wholeE).start lt

theorem noLater_of_stop_le (le : d.whole.last.span.stop ≤ e.whole.first.span.start) :
    d.whole.range.stop.NoLater e.whole.range.start := by
  rw [Hull.range_eq wholeD, Hull.range_eq wholeE]
  exact noLater_position (Hull.onBoundaries wholeD).stop (Hull.onBoundaries wholeE).start le

variable {row : List Lexeme} (takes : d.Takes row) (part : row.Sublist (scan text).lexemes)

include takes part

/-- What lies between the braces of a part lies in the part. -/
theorem Draft.Encloses.covers (encloses : d.Encloses e) : d.whole.range.Covers e.whole.range := by
  obtain ⟨opening, closing, body, after, before⟩ := encloses
  -- The braces belong to the part, so it starts no later than the first and stops no earlier than
  -- the second.
  have braces := takes.body _ body
  have opens : opening ∈ row := braces.subset List.mem_cons_self
  have closes : closing ∈ row := braces.subset (List.mem_cons_of_mem _ List.mem_cons_self)
  have ordered := (scan_inSequence text).sublist part
  have starts := ordered.start_le takes.first opens
  have stops := ordered.stop_le takes.last closes
  have longOpening := ordered.long _ opens
  have longClosing := ordered.long _ closes
  rw [Hull.range_eq wholeD, Hull.range_eq wholeE]
  refine covers_range (Hull.onBoundaries wholeD) (Hull.onBoundaries wholeE) ?_ ?_
  · simp only [Hull.span]
    omega
  · simp only [Hull.span]
    omega

omit wholeD in
/-- What lies between the braces of a part does so in the text. -/
theorem Draft.Encloses.entry (encloses : d.Encloses e) :
    Entry.Encloses (scan text).lexemes d.entry e.entry := by
  obtain ⟨opening, closing, body, after, before⟩ := encloses
  have braces := (takes.body _ body).trans part
  have opens : opening ∈ (scan text).lexemes := braces.subset List.mem_cons_self
  have closes : closing ∈ (scan text).lexemes :=
    braces.subset (List.mem_cons_of_mem _ List.mem_cons_self)
  obtain ⟨left, right⟩ := takes.braces _ body
  refine ⟨opening, opens, closing, closes, left, right, ?_, ?_, ?_⟩
  · rw [Draft.entry, body, range_of_mem opens, range_of_mem closes]
    exact congrArg some (Hull.range_eq (h := ⟨opening, [closing]⟩) braces)
  · rw [range_of_mem opens, Draft.entry, Hull.range_eq wholeE]
    exact noLater_position (onBoundaries_of_mem opens).stop (Hull.onBoundaries wholeE).start after
  · rw [range_of_mem closes, Draft.entry, Hull.range_eq wholeE]
    exact noLater_position (Hull.onBoundaries wholeE).stop (onBoundaries_of_mem closes).start
      before

end Pairs

/-! ### The source map of a text -/

section Read

variable {text : List Char} {project : ProjectBlock}
  (read : ProjectBlock.ofLexemes (scan text).lexemes = .ok project)

include read

theorem inSequence_of_read : InSequence (owned project.inWrittenOrder) :=
  (scan_inSequence text).sublist (owned_sublist (written_fits read).2)

/-- The drafts of a project that was read are a forest. -/
theorem forest_of_read : DraftForest none project.drafts (owned project.inWrittenOrder) :=
  ProjectBlock.draftForest (ProjectBlock.sound_of_read read)

section Parts

variable {d e : Draft} (inside : d ∈ project.drafts)

include inside

/-- A part of a project that was read takes up tokens of the text. -/
theorem whole_of_read : d.whole.lexemes.Sublist (scan text).lexemes :=
  (ProjectBlock.sublist_of_mem_drafts inside).trans (owned_sublist (written_fits read).2)

theorem exists_takes_of_read : ∃ row, d.Takes row ∧ row.Sublist (scan text).lexemes := by
  obtain ⟨row, takes, part⟩ := (forest_of_read read).exists_takes d inside
  exact ⟨row, takes, part.trans (owned_sublist (written_fits read).2)⟩

theorem covers_of_read (other : e ∈ project.drafts) (encloses : d.Encloses e) :
    d.whole.range.Covers e.whole.range := by
  obtain ⟨row, takes, part⟩ := exists_takes_of_read read inside
  exact encloses.covers (whole_of_read read inside) (whole_of_read read other) takes part

theorem stop_of_read : d.whole.range.stop = d.whole.last.range.stop :=
  d.whole.range_stop ((scan_pairwise_stopsBefore text).sublist (whole_of_read read inside))

end Parts

/-- Of two parts of a project that was read the later one stands behind the earlier one if the two
have the same parent. -/
theorem siblings_of_read : project.drafts.Pairwise fun d e =>
    d.parent = e.parent → d.whole.range.stop.NoLater e.whole.range.start := by
  have forest := (forest_of_read read).pairwise (inSequence_of_read read)
  have precedes := ProjectBlock.pairwise_precedes (ProjectBlock.pairwise_owned read)
  refine (forest.and precedes).imp_of_mem ?_
  rintro d e inD inE ⟨behind | encloses, precedes⟩ same
  · exact noLater_of_stop_le (whole_of_read read inD) (whole_of_read read inE) behind
  · -- A part inside another one does not stop behind it, as one with the same parent would.
    have stops := precedes same
    rw [Lexeme.StopsBefore, ← stop_of_read read inD, ← stop_of_read read inE] at stops
    exact absurd stops (covers_of_read read inD inE encloses).stop.place

/-- A draft of a project that was read is that of the project, or its entry lies between the braces
of the entry of its parent. -/
theorem exists_parent_of_read {before after : List Draft} {d : Draft}
    (split : project.drafts = before ++ d :: after) :
    before = [] ∧ d.parent = none ∨
      ∃ p, before.reverse.find? (some ·.id == d.parent) = some p ∧
        Entry.Encloses (scan text).lexemes p.entry d.entry := by
  cases before with
  | nil =>
    obtain ⟨rfl, -⟩ := List.cons.inj split
    exact .inl ⟨rfl, rfl⟩
  | cons root before =>
    -- The first draft is that of the project, and all the others nest below it.
    obtain ⟨rfl, below⟩ := List.cons.inj split
    have nests := ProjectBlock.nests (ProjectBlock.sound_of_read read) (inSequence_of_read read)
    rw [below] at nests
    obtain ⟨p, found, encloses⟩ := nests.exists_encloses
    rw [← List.reverse_cons] at found
    have around : p ∈ project.drafts := by
      rw [split]
      exact List.mem_append_left _ (List.mem_reverse.mp (List.mem_of_find?_eq_some found))
    have inside : d ∈ project.drafts := by
      rw [split]
      exact List.mem_append_right _ List.mem_cons_self
    obtain ⟨row, takes, part⟩ := exists_takes_of_read read around
    exact .inr ⟨p, found, encloses.entry (whole_of_read read inside) takes part⟩

/-- The ranges of the source map of a project that was read nest. -/
theorem ProjectBlock.nested_of_read :
    (SourceMap.mk (project.drafts.map (project.placed text))).Nested (scan text).lexemes where
  starts := by
    have starts := (forest_of_read read).pairwise_start (inSequence_of_read read)
    refine List.pairwise_map.mpr (starts.imp_of_mem fun inD inE lt => ?_)
    exact ahead_of_start_lt (whole_of_read read inD) (whole_of_read read inE) lt
  inside := by
    intro before e after split
    obtain ⟨front, rest, drafts, rfl, behind⟩ := List.map_eq_append_iff.mp split
    obtain ⟨d, others, rfl, rfl, -⟩ := List.map_eq_cons_iff.mp behind
    -- Entries have the ids and parents of their drafts, so the same one is found.
    rcases exists_parent_of_read read drafts with ⟨rfl, root⟩ | ⟨p, found, encloses⟩
    · exact .inl ⟨rfl, root⟩
    · refine .inr ⟨project.placed text p, ?_, encloses⟩
      rw [Entry.parentAmong, ← List.map_reverse, List.find?_map]
      exact congrArg (Option.map _) found
  forest := by
    have forest := (forest_of_read read).pairwise (inSequence_of_read read)
    refine List.pairwise_map.mpr (forest.imp_of_mem ?_)
    rintro d e inD inE (behind | encloses)
    · exact .inl (noLater_of_stop_le (whole_of_read read inD) (whole_of_read read inE) behind)
    · exact .inr (covers_of_read read inD inE encloses)
  siblings := List.pairwise_map.mpr (siblings_of_read read)
  parts := by
    intro e listed
    obtain ⟨d, inside, rfl⟩ := List.mem_map.mp listed
    obtain ⟨row, takes, part⟩ := exists_takes_of_read read inside
    have covers := takes.coversParts part (whole_of_read read inside)
    exact ⟨covers.keyword, covers.name, covers.body, covers.properties⟩

end Read

/-- The ranges of a source map nest, by byte offset as well as by line and column. Entries start one
after the other, each but the first lies between the braces of its parent, siblings do not overlap,
and every entry covers its parts. -/
theorem sourceMap_nested {text : String} {project : Project} {map : SourceMap}
    (built : (tolerant text).built = some (project, map)) :
    map.Nested (scan text.toList).lexemes := by
  cases read : ProjectBlock.ofLexemes (scan text.toList).lexemes with
  | error fault =>
    rw [tolerant_of_fault read] at built
    contradiction
  | ok block =>
    rw [tolerant_of_block read, block.build_eq] at built
    obtain ⟨-, rfl⟩ := Prod.mk.inj (Option.some.inj built)
    exact ProjectBlock.nested_of_read read

/-- A project with every kind of part, on several lines and with characters of several bytes. -/
def nestedText : String :=
  "project \"é\" \x7b colors \x7b a: #fff \x7d\n" ++
  "define Layout \"L\" \x7b layout stack \x7b \x7d \x7d screen S (\n" ++
  "w: 4) \x7b layout L \x7b cell span: 1 \x7b\n" ++
  "component T v: \"ß\" \x7d \x7d \x7d colors \x7b b: #000 \x7d \x7d\n"

theorem sourceMap_nested_nestedText : ∃ project map,
    (tolerant nestedText).built = some (project, map) ∧
      map.Nested (scan nestedText.toList).lexemes := by
  have built : (tolerant nestedText).built.isSome = true := by decide +kernel
  obtain ⟨⟨project, map⟩, same⟩ := Option.isSome_iff_exists.mp built
  exact ⟨project, map, same, sourceMap_nested same⟩

end Wireframe
