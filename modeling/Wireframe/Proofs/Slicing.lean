import Wireframe.Proofs.DraftForm
import Wireframe.Proofs.Slices

/-!
# Reading parts back from a text

A source map can be checked against the text it was made from. The ranges of an entry take its
keyword, its name or type, its body and its properties out of the text again, and the values that
stand there are those of the project.

## Main definitions

* `NodeKind.KeywordAt` — a range takes out the keyword of a kind.
* `Bearer.PlaceAt` — a property stands where its name was written last.
* `Entry.OfBearer`, `Entry.ReadsBack` — the properties of an entry, and the entry as a whole, are
  those that stand in the text.

## Main results

* `OrderedMap.keys_ofList` — the keys of a map, in the order in which they were first written.
* `Hull.keywordAt`, `ProjectBlock.readsBack_of_read` — what the ranges of an entry take out.
* `sourceMap_slices` — the entries of a source map read back.
-/

namespace Wireframe

/-- A range takes the keyword of a kind out of a text. That of a definition is made of two words. -/
def NodeKind.KeywordAt (text : List Char) (kind : NodeKind) (r : CodeRange) : Prop :=
  match kind.keywords with
  | [word] => Slices text word.text.toList r
  | [first, last] => SlicesBetween text first.text.toList last.text.toList r
  | _ => False

/-- A property stands where its name was written last, with the value that was written there. -/
structure Bearer.PlaceAt (b : Bearer) (text : List Char) (key : String) (place : PropertyPlace) :
    Prop where
  name : place.name = key
  last : ∃ before p after, b.written = before ++ p :: after ∧
    (p.name.text = key ∧ ∀ q ∈ after, q.name.text ≠ key) ∧
    place.value = b.kind.value p.value.token ∧
    Slices text key.toList place.nameRange ∧ Slices text p.value.text.toList place.valueRange

/-- The properties of an entry are those of a part, and so are those of the project. -/
structure Entry.OfBearer (e : Entry) (text : List Char) (project : Project) (b : Bearer)
    (properties : OrderedMap PropertyPlace) : Prop where
  kind : e.kind = b.kind
  keyword : e.keywordRange = b.keyword.range
  name : e.nameRange = b.name.map (·.range)
  /-- A part without braces ends with its last value, or with its type if it has no value. -/
  last : e.bodyRange = none →
    ∃ l, (b.written.getLast?.map (·.value)).or b.name = some l ∧ e.range.stop = l.range.stop
  keys : properties.keys = (b.written.map fun p => p.name.text).eraseDups
  places : ∀ entry ∈ properties.entries, b.PlaceAt text entry.1 entry.2
  given : project.Gives e.id (properties.mapValues (·.value))

/-- The ranges of an entry take its part out of the text. -/
structure Entry.ReadsBack (e : Entry) (text : List Char) (block : ProjectBlock)
    (project : Project) : Prop where
  keyword : e.kind.KeywordAt text e.keywordRange
  name : ∀ r ∈ e.nameRange, ∃ l ∈ (scan text).lexemes, r = l.range ∧
    Slices text l.text.toList r ∧ e.subject.title? = some (unquote l.text)
  body : ∀ r ∈ e.bodyRange, SlicesBetween text ['\x7b'] ['\x7d'] r
  whole : ∃ part, Slices text part e.range
  start : e.range.start = e.keywordRange.start
  stop : ∀ r ∈ e.bodyRange, e.range.stop = r.stop
  bodiless : e.bodyRange = none → e.kind = .component
  bears : e.properties.isSome = e.kind.bearsProperties
  properties : ∀ m ∈ e.properties, ∃ b, block.Bears b ∧ e.OfBearer text project b m

/-! ### Properties -/

/-- The keys of a map stand in the order in which they were first written. -/
theorem OrderedMap.keys_ofList {α : Type} (writes : List (String × α)) :
    (ofList writes).keys = (writes.map Prod.fst).eraseDups := by
  induction writes using List.reverseRecOn with
  | nil => rfl
  | append_singleton writes write ih =>
    have last : ofList (writes ++ [write]) = (ofList writes).insert write.1 write.2 := by
      rw [ofList, List.foldl_append]
      rfl
    rw [last, keys_insert, ih, List.map_append, List.eraseDups_append]
    by_cases present : write.1 ∈ writes.map Prod.fst
    · rw [if_pos (List.mem_eraseDups.mpr present)]
      simp [List.removeAll, present]
    · rw [if_neg fun found => present (List.mem_eraseDups.mp found)]
      simp [List.removeAll, present, List.eraseDups_cons]

section Draft

variable {text : List Char} {project : ProjectBlock} {d : Draft} {b : Bearer}

theorem Bearer.values_eq (b : Bearer) :
    (placesOf (b.written.map fun p => ⟨p, b.kind.value p.value.token⟩)).mapValues (·.value) =
      b.values := by
  rw [placesOf, OrderedMap.mapValues_ofList, List.map_map, List.map_map]
  rfl

theorem Bearer.keys_placesOf (b : Bearer) :
    (placesOf (b.written.map fun p => ⟨p, b.kind.value p.value.token⟩)).keys =
      (b.written.map fun p => p.name.text).eraseDups := by
  rw [placesOf, OrderedMap.keys_ofList, List.map_map, List.map_map]
  rfl

/-- A property stands where its name was written last. -/
theorem Bearer.placeAt
    (listed : ∀ p ∈ b.written, p.name ∈ (scan text).lexemes ∧ p.value ∈ (scan text).lexemes)
    {entry : String × PropertyPlace}
    (inside : entry ∈
      (placesOf (b.written.map fun p => ⟨p, b.kind.value p.value.token⟩)).entries) :
    b.PlaceAt text entry.1 entry.2 := by
  rw [placesOf, List.map_map] at inside
  -- Of all that is written under a key, a map keeps what comes last.
  obtain ⟨before, after, split, unwritten⟩ := OrderedMap.exists_last_of_mem_ofList inside
  obtain ⟨front, rest, written, rfl, behind⟩ := List.map_eq_append_iff.mp split
  obtain ⟨p, others, rfl, rfl, rfl⟩ := List.map_eq_cons_iff.mp behind
  have inside : p ∈ b.written := by
    rw [written]
    exact List.mem_append_right _ List.mem_cons_self
  obtain ⟨name, value⟩ := listed p inside
  refine ⟨rfl, front, p, others, written, ⟨rfl, fun q later => ?_⟩, rfl, ?_, ?_⟩
  · exact unwritten _ (List.mem_map_of_mem later)
  · exact slices_of_mem name
  · exact slices_of_mem value

end Draft

/-! ### Keywords -/

theorem Hull.keywordAt {text : List Char} {h : Hull} (part : h.lexemes.Sublist (scan text).lexemes)
    {kind : NodeKind} (words : h.lexemes.map Lexeme.token = kind.keywords.map Token.keyword) :
    kind.KeywordAt text h.range := by
  obtain ⟨first, others⟩ := h
  have spelt : ∀ {l : Lexeme} {word : Keyword}, l.token = .keyword word → l.text = word.text :=
    fun same => congrArg Token.text same
  unfold NodeKind.KeywordAt
  split
  · next word only =>
    rw [only] at words
    obtain ⟨one, none⟩ := List.cons.inj words
    obtain rfl := List.map_eq_nil_iff.mp none
    rw [← spelt one]
    exact slices_of_mem (part.subset List.mem_cons_self)
  · next word other both =>
    rw [both] at words
    obtain ⟨one, rest⟩ := List.cons.inj words
    obtain ⟨second, tail, rfl, two, none⟩ := List.map_eq_cons_iff.mp rest
    obtain rfl := List.map_eq_nil_iff.mp none
    rw [← spelt one, ← spelt two]
    exact Hull.slicesBetween part
  · -- There is no kind without keywords, or with more than two.
    next single double =>
    cases kind <;> first | exact single _ rfl | exact double _ _ rfl

/-! ### The source map of a text -/

namespace ProjectBlock

section Read

variable {text : List Char} {project : ProjectBlock}
  (read : ProjectBlock.ofLexemes (scan text).lexemes = .ok project)

include read

theorem mem_of_mem_owned {l : Lexeme} (inside : l ∈ owned project.inWrittenOrder) :
    l ∈ (scan text).lexemes :=
  (owned_sublist (written_fits read).2).subset inside

/-- Settings of a kind are written with tokens of the text. -/
theorem mem_of_mem_written {kind : SettingsKind} {p : WrittenProperty}
    (inside : p ∈ project.written kind) :
    p.name ∈ (scan text).lexemes ∧ p.value ∈ (scan text).lexemes := by
  obtain ⟨other, found, held⟩ := List.mem_flatMap.mp inside
  rw [settings_eq_filterMap] at found
  obtain ⟨item, listed, same⟩ := List.mem_filterMap.mp found
  cases item with
  | definition | screen => contradiction
  | settings block =>
    obtain ⟨-, same⟩ := Option.ite_none_right_eq_some.mp same
    obtain rfl : block = other := Option.some.inj same
    have inProject : block.written <:+: project.inWrittenOrder :=
      (infix_flatMap_of_mem (f := Item.written) listed).trans ⟨_, _, List.append_assoc _ _ _⟩
    have inBlock : block.properties.flatMap WrittenProperty.written <:+: block.written :=
      ⟨_, _, List.append_assoc _ _ _⟩
    have both := (sublist_property held).trans
      ((inBlock.trans inProject).sublist.filterMap Written.own?)
    exact ⟨mem_of_mem_owned read (both.subset List.mem_cons_self),
      mem_of_mem_owned read (both.subset (List.mem_cons_of_mem _ List.mem_cons_self))⟩

variable {d : Draft} (inside : d ∈ project.drafts)

include inside

/-- The properties that are written in a part are tokens of the text. -/
theorem mem_of_lists {b : Bearer} (bears : project.Bears b) (lists : d.Lists b) :
    ∀ p ∈ b.written, p.name ∈ (scan text).lexemes ∧ p.value ∈ (scan text).lexemes := by
  intro p held
  cases settings : d.subject.kind.isSettings with
  | true =>
    -- Settings of a kind are gathered from several blocks, and so they are tokens of the project
    -- rather than of one draft.
    rw [lists.kind] at settings
    cases bears with
    | settings => exact mem_of_mem_written read held
    | screen => contradiction
    | @block item body b => cases b <;> contradiction
  | false =>
    obtain ⟨row, takes, part⟩ := exists_takes_of_read read inside
    have both := (takes.properties settings _ lists.properties ⟨p, b.kind.value p.value.token⟩
      (List.mem_map_of_mem held)).trans part
    exact ⟨both.subset List.mem_cons_self,
      both.subset (List.mem_cons_of_mem _ List.mem_cons_self)⟩

theorem ofBearer_of_read {b : Bearer} (bears : project.Bears b) (lists : d.Lists b)
    (gives : project.lowered.Gives d.id b.values) :
    (project.placed text d).OfBearer text project.lowered b
      (placesOf (b.written.map fun p => ⟨p, b.kind.value p.value.token⟩)) where
  kind := lists.kind
  keyword := congrArg Hull.range lists.keyword
  name := congrArg (Option.map _) lists.name
  last := by
    intro bodiless
    exact ⟨d.whole.last, lists.last (Option.map_eq_none_iff.mp bodiless), stop_of_read read inside⟩
  keys := b.keys_placesOf
  places := fun _ found => Bearer.placeAt (mem_of_lists read inside bears lists) found
  given := by
    rw [b.values_eq]
    exact gives

/-- The entry of a draft reads back. -/
theorem readsBack_of_read : (project.placed text d).ReadsBack text project project.lowered := by
  have drafted := drafted_of_mem inside
  have spelt := drafted.spelt (sound_of_read read)
  have whole := whole_of_read read inside
  obtain ⟨row, takes, part⟩ := exists_takes_of_read read inside
  have keyword := takes.keyword.trans part
  have start : d.whole.range.start = d.keyword.range.start := by
    rw [Hull.range_start whole, Hull.range_start keyword, spelt.first]
  obtain ⟨slice, slices, -⟩ := Hull.slicesBetween whole
  refine ⟨Hull.keywordAt keyword spelt.keyword, ?name, ?body, ⟨slice, slices⟩, start, ?stop,
    fun none => spelt.bodiless (Option.map_eq_none_iff.mp none), ?bears, ?properties⟩
  case name =>
    intro r found
    obtain ⟨l, name, rfl⟩ := Option.map_eq_some_iff.mp found
    have listed := part.subset (takes.name l name)
    refine ⟨l, listed, rfl, slices_of_mem listed, ?_⟩
    rcases spelt.name l name with title | ⟨named, title⟩
    · exact title
    · rw [unquote_of_isName listed named]
      exact title
  case body =>
    intro r found
    obtain ⟨b, body, rfl⟩ := Option.map_eq_some_iff.mp found
    obtain ⟨left, right⟩ := takes.braces b body
    have slices := Hull.slicesBetween (h := ⟨b.1, [b.2]⟩) ((takes.body b body).trans part)
    have opening : b.1.text = "\x7b" := congrArg Token.text left
    have closing : b.2.text = "\x7d" := congrArg Token.text right
    change SlicesBetween text b.1.text.toList b.2.text.toList _ at slices
    rwa [opening, closing] at slices
  case stop =>
    intro r found
    obtain ⟨b, body, rfl⟩ := Option.map_eq_some_iff.mp found
    have ordered := (scan_pairwise_stopsBefore text).sublist ((takes.body b body).trans part)
    have braces := Hull.range_stop ⟨b.1, [b.2]⟩ ordered
    exact ((stop_of_read read inside).trans (congrArg (·.range.stop) (spelt.body b body))).trans
      braces.symm
  case bears =>
    change (d.properties.map placesOf).isSome = d.subject.kind.bearsProperties
    cases bears : d.subject.kind.bearsProperties with
    | false =>
      rw [drafted.properties_eq_none bears]
      rfl
    | true =>
      obtain ⟨b, -, lists, -⟩ := drafted.exists_bearer bears
      rw [lists.properties]
      rfl
  case properties =>
    intro m found
    obtain ⟨ps, properties, rfl⟩ := Option.map_eq_some_iff.mp found
    have bears : d.subject.kind.bearsProperties = true := by
      by_contra other
      rw [drafted.properties_eq_none (Bool.eq_false_iff.mpr other)] at properties
      contradiction
    obtain ⟨b, held, lists, gives⟩ := drafted.exists_bearer bears
    obtain rfl := Option.some.inj (lists.properties.symm.trans properties)
    exact ⟨b, held, ofBearer_of_read read inside held lists gives⟩

end Read

end ProjectBlock

/-- The entries of a source map read back: their ranges take the keyword, the name or type, the body
and the properties out of the text, and the properties are those that the project has. -/
theorem sourceMap_slices {text : String} {project : Project} {map : SourceMap}
    (built : (tolerant text).built = some (project, map)) :
    ∃ block, ProjectBlock.ofLexemes (scan text.toList).lexemes = .ok block ∧
      ∀ e ∈ map.entries, e.ReadsBack text.toList block project := by
  obtain ⟨block, read, rfl, rfl⟩ := exists_block_of_built built
  refine ⟨block, read, fun e listed => ?_⟩
  obtain ⟨d, inside, rfl⟩ := List.mem_map.mp listed
  exact ProjectBlock.readsBack_of_read read inside

/-- A project with names that are written twice, in one part and in two blocks of settings, and with
characters of several bytes and escapes in its texts. -/
def rewrittenText : String :=
  "project \"Ünïts\" \x7b mocks \x7b a: \"é\" b: \"x\\ty\" \x7d\n" ++
  "define Component \"Card\" \x7b component Text value: \"1\" size: 2 value: 03 \x7d\n" ++
  "screen Main (w: 4, w: \"ß\") \x7b layout stack \x7b cell \x7b component Card \x7d \x7d \x7d\n" ++
  "mocks \x7b b: #fff c: 1 \x7d \x7d\n"

theorem sourceMap_slices_rewrittenText : ∃ project map,
    (tolerant rewrittenText).built = some (project, map) ∧
      ∃ block, ProjectBlock.ofLexemes (scan rewrittenText.toList).lexemes = .ok block ∧
        ∀ e ∈ map.entries, e.ReadsBack rewrittenText.toList block project := by
  have built : (tolerant rewrittenText).built.isSome = true := by decide +kernel
  obtain ⟨⟨project, map⟩, same⟩ := Option.isSome_iff_exists.mp built
  exact ⟨project, map, same, sourceMap_slices same⟩

end Wireframe
