import Wireframe.Proofs.BlockForm
import Wireframe.Proofs.DraftOrder
import Wireframe.Proofs.Mirror

/-!
# The forest of drafts

The drafts of a project are a forest over its tokens: each part takes up tokens of its own, and the
parts inside it stand between two of these, its braces. Blocks, items and the project itself are
each put together from smaller forests in the same way. What follows from the shape is said here
once for all forests, with offsets in place of lines and columns.

## Main definitions

* `InSequence` — tokens that stand one after the other.
* `Draft.Takes` — the tokens that a part takes up apart from those of the parts inside it.
* `DraftForest` — drafts together with the tokens that their parts are written as.
* `Draft.Encloses`, `Nests` — a part lies between the braces of another, and each between those of
  the closest one before it that has the id of its parent.

## Main results

* `ProjectBlock.draftForest` — the drafts of a project that was read are a forest.
* `DraftForest.pairwise` — of two parts the later one lies behind the earlier one or inside it.
* `DraftForest.nests` — every part lies between the braces of its parent.
-/

namespace Wireframe

/-! ### Tokens in sequence -/

/-- Tokens that stand one after the other, none of them empty. -/
structure InSequence (ls : List Lexeme) : Prop where
  apart : ls.Pairwise (·.span.stop ≤ ·.span.start)
  long : ∀ l ∈ ls, l.span.start < l.span.stop

theorem scan_inSequence (text : List Char) : InSequence (scan text).lexemes where
  apart := lexemes_pairwise_apart text
  long := fun _ inside => start_lt_stop_of_mem_lexemes inside

namespace InSequence

variable {ls xs ys : List Lexeme} {l m : Lexeme}

theorem sublist (ordered : InSequence ls) (part : xs.Sublist ls) : InSequence xs where
  apart := ordered.apart.sublist part
  long := fun l inside => ordered.long l (part.subset inside)

theorem stop_le_start (ordered : InSequence (xs ++ ys)) (left : l ∈ xs) (right : m ∈ ys) :
    l.span.stop ≤ m.span.start :=
  (List.pairwise_append.mp ordered.apart).2.2 l left m right

theorem left (ordered : InSequence (xs ++ ys)) : InSequence xs :=
  ordered.sublist (List.sublist_append_left xs ys)

theorem right (ordered : InSequence (xs ++ ys)) : InSequence ys :=
  ordered.sublist (List.sublist_append_right xs ys)

theorem drop_behind {front middle : List Lexeme}
    (ordered : InSequence (front ++ (middle ++ (xs ++ ys)))) :
    InSequence (front ++ (middle ++ xs)) :=
  ordered.sublist (((List.sublist_append_left xs ys).append_left middle).append_left front)

/-- The first token starts first. -/
theorem start_le (ordered : InSequence ls) (first : ls.head? = some m) (inside : l ∈ ls) :
    m.span.start ≤ l.span.start := by
  obtain ⟨others, rfl⟩ := List.head?_eq_some_iff.mp first
  rcases List.mem_cons.mp inside with rfl | later
  · exact Nat.le_refl _
  · have ahead := (List.pairwise_cons.mp ordered.apart).1 l later
    have long := ordered.long m List.mem_cons_self
    omega

/-- The last token stops last. -/
theorem stop_le (ordered : InSequence ls) (last : ls.getLast? = some m) (inside : l ∈ ls) :
    l.span.stop ≤ m.span.stop := by
  obtain ⟨others, rfl⟩ := List.getLast?_eq_some_iff.mp last
  rcases List.mem_append.mp inside with earlier | same
  · have ahead := ordered.stop_le_start earlier List.mem_cons_self
    have long := ordered.long m (List.mem_append_right _ List.mem_cons_self)
    omega
  · rw [List.mem_singleton.mp same]

end InSequence

/-! ### Forests -/

/-- The tokens that a part takes up apart from those of the parts inside it. Of settings only the
first block counts, and its properties are left out, since later blocks add to them. -/
structure Draft.Takes (d : Draft) (row : List Lexeme) : Prop where
  first : row.head? = some d.whole.first
  last : row.getLast? = some d.whole.last
  keyword : d.keyword.lexemes.Sublist row
  name : ∀ l ∈ d.name, l ∈ row
  body : ∀ b ∈ d.body, [b.1, b.2].Sublist row
  braces : ∀ b ∈ d.body, b.1.token = .mark .leftBrace ∧ b.2.token = .mark .rightBrace
  properties : d.subject.kind.isSettings = false →
    ∀ ps ∈ d.properties, ∀ p ∈ ps, [p.written.name, p.written.value].Sublist row

/-- The drafts of the parts inside a parent, one after the other and each with those inside it,
together with the tokens that they are written as. No part inside a parent has the id of that. -/
inductive DraftForest : Option NodeId → List Draft → List Lexeme → Prop where
  | nil (parent : Option NodeId) (ls : List Lexeme) : DraftForest parent [] ls
  | skip {parent : Option NodeId} (row : List Lexeme) {ds : List Draft} {ls : List Lexeme}
    (others : DraftForest parent ds ls) : DraftForest parent ds (row ++ ls)
  | part {d : Draft} {front back : List Lexeme} (takes : d.Takes (front ++ back))
    {inner : List Draft} {middle : List Lexeme} (inside : DraftForest (some d.id) inner middle)
    (braces : inner = [] ∨ ∃ opening ∈ front, ∃ closing ∈ back, d.body = some (opening, closing))
    (fresh : ∀ e ∈ d :: inner, some e.id ≠ d.parent)
    {others : List Draft} {behind : List Lexeme} (rest : DraftForest d.parent others behind) :
    DraftForest d.parent (d :: (inner ++ others)) (front ++ (middle ++ (back ++ behind)))

/-- A part lies between the braces of another one. -/
def Draft.Encloses (d e : Draft) : Prop :=
  ∃ opening closing, d.body = some (opening, closing) ∧
    opening.span.stop ≤ e.whole.first.span.start ∧ e.whole.last.span.stop ≤ closing.span.start

/-- Each of some drafts has its parent among those seen before it, the latest one first, and lies
between the braces of the closest one with the right id. -/
def Nests : List Draft → List Draft → Prop
  | _, [] => True
  | seen, e :: ds =>
    (∃ p, seen.find? (some ·.id == e.parent) = some p ∧ p.Encloses e) ∧ Nests (e :: seen) ds

theorem nests_append {seen ds es : List Draft} :
    Nests seen (ds ++ es) ↔ Nests seen ds ∧ Nests (ds.reverse ++ seen) es := by
  induction ds generalizing seen with
  | nil => simp [Nests]
  | cons d ds ih => simp [Nests, ih, and_assoc]

/-- What a draft nests in stands before it. -/
theorem Nests.exists_encloses {seen before after : List Draft} {e : Draft}
    (nests : Nests seen (before ++ e :: after)) :
    ∃ p, (before.reverse ++ seen).find? (some ·.id == e.parent) = some p ∧ p.Encloses e :=
  (nests_append.mp nests).2.1

namespace DraftForest

variable {parent : Option NodeId} {ds : List Draft} {ls : List Lexeme}

/-- Every part of a forest takes up tokens of the forest. -/
theorem exists_takes (forest : DraftForest parent ds ls) :
    ∀ d ∈ ds, ∃ row, d.Takes row ∧ row.Sublist ls := by
  induction forest with
  | nil => exact fun _ found => absurd found List.not_mem_nil
  | skip row _ ih =>
    intro d inside
    obtain ⟨own, takes, part⟩ := ih d inside
    exact ⟨own, takes, part.trans (List.sublist_append_right _ _)⟩
  | @part d front back takes inner middle _ _ _ others behind _ ihInside ihRest =>
    intro e found
    rcases List.mem_cons.mp found with rfl | found
    · exact ⟨_, takes, ((List.sublist_append_left back behind).trans
        (List.sublist_append_right middle _)).append_left front⟩
    rcases List.mem_append.mp found with below | later
    · obtain ⟨row, own, part⟩ := ihInside e below
      exact ⟨row, own, (part.trans (List.sublist_append_left _ _)).trans
        (List.sublist_append_right _ _)⟩
    · obtain ⟨row, own, part⟩ := ihRest e later
      exact ⟨row, own, ((part.trans (List.sublist_append_right _ _)).trans
        (List.sublist_append_right _ _)).trans (List.sublist_append_right _ _)⟩

theorem first_mem (forest : DraftForest parent ds ls) {d : Draft} (inside : d ∈ ds) :
    d.whole.first ∈ ls := by
  obtain ⟨row, takes, part⟩ := forest.exists_takes d inside
  exact part.subset (List.mem_of_head? takes.first)

theorem last_mem (forest : DraftForest parent ds ls) {d : Draft} (inside : d ∈ ds) :
    d.whole.last ∈ ls := by
  obtain ⟨row, takes, part⟩ := forest.exists_takes d inside
  exact part.subset (List.mem_of_getLast? takes.last)

/-- A part lies between the braces of the one around it. -/
theorem encloses_of_mem {d e : Draft} {front middle back : List Lexeme} {inner : List Draft}
    (inside : DraftForest (some d.id) inner middle)
    (braces : inner = [] ∨ ∃ opening ∈ front, ∃ closing ∈ back, d.body = some (opening, closing))
    (ordered : InSequence (front ++ (middle ++ back))) (below : e ∈ inner) :
    d.Encloses e := by
  rcases braces with rfl | ⟨opening, before, closing, after, body⟩
  · contradiction
  refine ⟨opening, closing, body, ordered.stop_le_start before ?_, ?_⟩
  · exact List.mem_append_left _ (inside.first_mem below)
  · exact ordered.right.stop_le_start (inside.last_mem below) after

/-- Of two parts of a forest the later one stands behind the earlier one or lies between its
braces. -/
theorem pairwise (forest : DraftForest parent ds ls) (ordered : InSequence ls) :
    ds.Pairwise fun d e =>
      d.whole.last.span.stop ≤ e.whole.first.span.start ∨ d.Encloses e := by
  -- Pairs inside a part and pairs behind it are left to the induction. The part itself goes with
  -- both, and what is inside it goes with what is behind it.
  induction forest with
  | nil => exact .nil
  | skip _ _ ih => exact ih ordered.right
  | @part d front back takes inner middle inside braces _ others behind rest ihInside ihRest =>
    refine List.pairwise_cons.mpr ⟨fun e found => ?_, List.pairwise_append.mpr
      ⟨ihInside ordered.right.left, ihRest ordered.right.right.right, fun e below f later => ?_⟩⟩
    · rcases List.mem_append.mp found with below | later
      · exact .inr (inside.encloses_of_mem braces ordered.drop_behind below)
      · -- The last token of the part stands behind the parts inside it, if there are any.
        have behindIt := rest.first_mem later
        rcases List.mem_append.mp (List.mem_of_getLast? takes.last) with before | after
        · refine .inl (ordered.stop_le_start before ?_)
          exact List.mem_append_right _ (List.mem_append_right _ behindIt)
        · exact .inl (ordered.right.right.stop_le_start after behindIt)
    · refine .inl (ordered.right.stop_le_start (inside.last_mem below) ?_)
      exact List.mem_append_right _ (rest.first_mem later)

/-- The parts of a forest start one after the other. -/
theorem pairwise_start (forest : DraftForest parent ds ls) (ordered : InSequence ls) :
    ds.Pairwise fun d e => d.whole.first.span.start < e.whole.first.span.start := by
  refine (forest.pairwise ordered).imp_of_mem fun {d e} inD _ related => ?_
  obtain ⟨row, takes, part⟩ := forest.exists_takes d inD
  have own := ordered.sublist part
  rcases related with behind | ⟨opening, closing, body, after, -⟩
  · have last := List.mem_of_getLast? takes.last
    have starts := own.start_le takes.first last
    have long := own.long _ last
    omega
  · have brace : opening ∈ row := (takes.body _ body).subset List.mem_cons_self
    have starts := own.start_le takes.first brace
    have long := own.long _ brace
    omega

/-- In a forest inside a part that has been seen and whose id has not come again, every part lies
between the braces of the closest one before it that has the id of its parent. -/
theorem nests (forest : DraftForest parent ds ls) (ordered : InSequence ls) {p : Draft}
    (around : parent = some p.id) {seen : List Draft}
    (found : seen.find? (some ·.id == parent) = some p) (enclosed : ∀ e ∈ ds, p.Encloses e) :
    Nests seen ds := by
  induction forest generalizing p seen with
  | nil => trivial
  | skip _ _ ih => exact ih ordered.right around found enclosed
  | @part d front back takes inner middle inside braces fresh others behind rest ihInside ihRest =>
    obtain ⟨first, later⟩ := List.forall_mem_cons.mp enclosed
    refine ⟨⟨p, found, first⟩, nests_append.mpr ⟨?_, ?_⟩⟩
    · refine ihInside ordered.right.left rfl (List.find?_cons_of_pos (by simp)) fun e below => ?_
      exact inside.encloses_of_mem braces ordered.drop_behind below
    · -- Nothing inside the part has the id of its parent, so what was found before is found again.
      refine ihRest ordered.right.right.right around ?_ fun e held =>
        later e (List.mem_append_right _ held)
      obtain ⟨own, below⟩ := List.forall_mem_cons.mp fresh
      have none : inner.reverse.find? (some ·.id == d.parent) = none :=
        List.find?_eq_none.mpr fun e held => by simpa using below e (List.mem_reverse.mp held)
      rw [List.find?_append, none, Option.none_or, List.find?_cons_of_neg (by simpa using own)]
      exact found

end DraftForest

/-! ### Properties -/

section Properties

variable {properties : List WrittenProperty} {p : WrittenProperty}

/-- A property is written as its name and its value. -/
theorem sublist_property (inside : p ∈ properties) :
    [p.name, p.value].Sublist (owned (properties.flatMap WrittenProperty.written)) := by
  rw [owned_flatMap]
  exact (infix_flatMap_of_mem (f := fun p => owned p.written) inside).sublist

theorem owned_separated (properties : List WrittenProperty) :
    owned (separated properties) = owned (properties.flatMap WrittenProperty.written) := by
  cases properties with
  | nil => rfl
  | cons p others => simp [separated, owned_flatMap]

theorem sublist_paramProperties (params : Option ParamList) :
    (owned ((paramProperties params).flatMap WrittenProperty.written)).Sublist
      (owned (writtenParams params)) := by
  cases params with
  | none => exact .slnil
  | some list =>
    rw [writtenParams, Option.elim_some, ParamList.written, owned_own, owned_append,
      owned_separated]
    exact (List.sublist_append_left _ _).cons _

/-- The values that properties are drafted with do not matter for where they stand. -/
theorem sublist_valuedProperties {row : List Lexeme}
    (part : (owned (properties.flatMap WrittenProperty.written)).Sublist row) :
    ∀ ps ∈ some (valuedProperties properties), ∀ p ∈ ps,
      [p.written.name, p.written.value].Sublist row := by
  rintro ps ⟨⟩ p inside
  obtain ⟨q, held, rfl⟩ := List.mem_map.mp inside
  exact (sublist_property held).trans part

end Properties

/-! ### Blocks -/

section Takes

variable {names : DefinedNames}

theorem ComponentBlock.getLast?_owned (c : ComponentBlock) :
    (owned c.written).getLast? = some c.last := by
  rcases List.eq_nil_or_concat c.properties with none | ⟨others, p, split⟩
  · simp [ComponentBlock.written, ComponentBlock.last, none]
  · simp [ComponentBlock.written, ComponentBlock.last, split, WrittenProperty.written,
      List.getLast?_cons, List.getLast?_append]

theorem takes_componentDraft (c : Ticket × ComponentBlock) (parent : NodeId) :
    (componentDraft names c parent).Takes (owned c.2.written) where
  first := rfl
  last := c.2.getLast?_owned
  keyword := .cons_cons _ (List.nil_sublist _)
  name := by simp [componentDraft, ComponentBlock.written]
  body := fun b found => absurd found (Option.not_mem_none b)
  braces := fun b found => absurd found (Option.not_mem_none b)
  properties := fun _ => sublist_valuedProperties
    ((List.sublist_cons_self _ _).trans (List.sublist_cons_self _ _))

/-- A part with a body takes up what opens it and its closing brace. -/
theorem Draft.takes_of_body {d : Draft} {front : List Lexeme} {opening closing : Lexeme}
    (body : d.body = some (opening, closing)) (opened : opening ∈ front)
    (opens : opening.token = .mark .leftBrace) (closes : closing.token = .mark .rightBrace)
    (first : front.head? = some d.whole.first) (last : d.whole.last = closing)
    (keyword : d.keyword.lexemes.Sublist front) (name : ∀ l ∈ d.name, l ∈ front)
    (properties : d.subject.kind.isSettings = false →
      ∀ ps ∈ d.properties, ∀ p ∈ ps, [p.written.name, p.written.value].Sublist front) :
    d.Takes (front ++ [closing]) where
  first := by rw [List.head?_append, first, Option.some_or]
  last := by rw [List.getLast?_concat, last]
  keyword := keyword.trans (List.sublist_append_left _ _)
  name := fun l found => List.mem_append_left _ (name l found)
  body := by
    rw [body]
    rintro b ⟨⟩
    exact (List.singleton_sublist.mpr opened).append_right [closing]
  braces := by
    rw [body]
    rintro b ⟨⟩
    exact ⟨opens, closes⟩
  properties := fun kind ps found p inside =>
    (properties kind ps found p inside).trans (List.sublist_append_left _ _)

theorem last_blockHull (keyword closing : Lexeme) (params : Option ParamList) :
    (blockHull keyword params closing).last = closing := by
  cases params <;> rfl

theorem takes_layoutDraft {l : Ticket × Closed LayoutHead} (sound : l.2.head.Sound)
    (closed : l.2.closing.token = .mark .rightBrace) (parent : NodeId) :
    (layoutDraft names l parent).Takes (owned l.2.head.written ++ [l.2.closing]) := by
  have shape : owned l.2.head.written = l.2.head.keyword :: l.2.head.kind ::
      (owned (writtenParams l.2.head.params) ++ [l.2.head.opening]) := by
    simp [LayoutHead.written]
  rw [shape]
  refine Draft.takes_of_body rfl (by simp) sound.opening closed rfl (last_blockHull _ _ _)
    (.cons_cons _ (List.nil_sublist _)) (by simp [layoutDraft]) fun _ => ?_
  exact sublist_valuedProperties ((((sublist_paramProperties _).trans
    (List.sublist_append_left _ _)).cons _).cons _)

theorem takes_cellDraft {k : Ticket × Closed CellHead} (sound : k.2.head.Sound)
    (closed : k.2.closing.token = .mark .rightBrace) (parent : NodeId) :
    (cellDraft k parent).Takes (owned k.2.head.written ++ [k.2.closing]) := by
  have shape : owned k.2.head.written = k.2.head.keyword ::
      (owned (k.2.head.properties.flatMap WrittenProperty.written) ++ [k.2.head.opening]) := by
    simp [CellHead.written]
  rw [shape]
  refine Draft.takes_of_body rfl (by simp) sound.opening closed rfl rfl
    (.cons_cons _ (List.nil_sublist _)) (by simp [cellDraft]) fun _ => ?_
  exact sublist_valuedProperties ((List.sublist_append_left _ _).cons _)

theorem takes_definitionDraft {word : Keyword} {head : DefinitionHead} (sound : head.Sound word)
    {closing : Lexeme} (closed : closing.token = .mark .rightBrace) (t : Ticket)
    (subject : Subject) (parent : NodeId) :
    (definitionDraft t head subject closing parent).Takes (owned head.written ++ [closing]) := by
  have shape : owned head.written = [head.define, head.kind, head.name, head.opening] := rfl
  rw [shape]
  refine Draft.takes_of_body rfl (by simp) sound.opening closed rfl rfl
    (.cons_cons _ (.cons_cons _ (List.nil_sublist _))) (by simp [definitionDraft]) fun _ => ?_
  exact fun ps found => absurd found (Option.not_mem_none ps)

theorem takes_screenDraft {head : ScreenHead} (sound : head.Sound) {closing : Lexeme}
    (closed : closing.token = .mark .rightBrace) (t : Ticket) (parent : NodeId) :
    (screenDraft t head closing parent).Takes (owned head.written ++ [closing]) := by
  have shape : owned head.written = head.keyword :: head.name ::
      (owned (writtenParams head.params) ++ [head.opening]) := by
    simp [ScreenHead.written]
  rw [shape]
  refine Draft.takes_of_body rfl (by simp) sound.opening closed rfl (last_blockHull _ _ _)
    (.cons_cons _ (List.nil_sublist _)) (by simp [screenDraft]) fun _ => ?_
  exact sublist_valuedProperties ((((sublist_paramProperties _).trans
    (List.sublist_append_left _ _)).cons _).cons _)

theorem takes_settingsDraft {block : SettingsBlock} (sound : block.Sound)
    (written : List WrittenProperty) (parent : NodeId) :
    (settingsDraft block written parent).Takes (owned block.written) := by
  have shape : owned block.written = (block.head.keyword :: block.head.opening ::
      owned (block.properties.flatMap WrittenProperty.written)) ++ [block.closing] := by
    simp [SettingsBlock.written, SettingsHead.written]
  rw [shape]
  refine Draft.takes_of_body rfl (by simp) sound.head.opening sound.closing rfl rfl
    (.cons_cons _ (List.nil_sublist _)) (by simp [settingsDraft]) fun other => ?_
  have settings := block.head.kind.isSettings_kind
  rw [settingsDraft, settings] at other
  contradiction

end Takes

/-! ### Putting forests together -/

section Together

variable {names : DefinedNames} {parent : NodeId} {others : List Draft} {behind : List Lexeme}

/-- What a block takes up apart from the blocks inside it. -/
theorem takes_draft {n : NumberedBlock} (sound : Block.NodeSound (NumberedBlock.erase n))
    (parent : NodeId) : (NumberedBlock.draft names n parent).Takes
      (owned (Block.front (NumberedBlock.erase n)) ++
        owned (Block.back (NumberedBlock.erase n))) := by
  cases n with
  | component c =>
    rw [NumberedBlock.erase, Tree.map_component, Block.front, Block.back, owned_nil,
      List.append_nil]
    exact takes_componentDraft c parent
  | layout l blocks =>
    rw [NumberedBlock.erase, Tree.map_layout] at sound ⊢
    exact takes_layoutDraft sound.1 sound.2 parent
  | cell k blocks =>
    rw [NumberedBlock.erase, Tree.map_cell] at sound ⊢
    exact takes_cellDraft sound.1.1 sound.1.2 parent

/-- A block that holds others has braces around them. -/
theorem exists_braces (n : NumberedBlock) (parent : NodeId) (f : NumberedBlock → List Draft) :
    n.children.flatMap f = [] ∨ ∃ opening ∈ owned (Block.front (NumberedBlock.erase n)),
      ∃ closing ∈ owned (Block.back (NumberedBlock.erase n)),
        (NumberedBlock.draft names n parent).body = some (opening, closing) := by
  cases n with
  | component c => exact .inl rfl
  | layout l blocks =>
    rw [NumberedBlock.erase, Tree.map_layout]
    exact .inr ⟨l.2.head.opening, by simp [Block.front, LayoutHead.written], l.2.closing,
      List.mem_singleton_self _, rfl⟩
  | cell k blocks =>
    rw [NumberedBlock.erase, Tree.map_cell]
    exact .inr ⟨k.2.head.opening, by simp [Block.front, CellHead.written], k.2.closing,
      List.mem_singleton_self _, rfl⟩

/-- A part in front of a forest, with the forest of the parts inside it. -/
theorem DraftForest.cons {parent : Option NodeId} {d : Draft} (own : d.parent = parent)
    {front back : List Lexeme} (takes : d.Takes (front ++ back)) {inner : List Draft}
    {middle : List Lexeme} (inside : DraftForest (some d.id) inner middle)
    (braces : inner = [] ∨ ∃ opening ∈ front, ∃ closing ∈ back, d.body = some (opening, closing))
    (fresh : ∀ e ∈ d :: inner, some e.id ≠ parent) (rest : DraftForest parent others behind) :
    DraftForest parent (d :: inner ++ others) ((front ++ (middle ++ back)) ++ behind) := by
  subst own
  rw [List.cons_append, List.append_assoc, List.append_assoc]
  exact .part takes inside braces fresh rest

/-- Blocks one after the other are a forest if each of them can stand in front of one. -/
theorem DraftForest.of_blocks {blocks : List NumberedBlock}
    (each : ∀ n ∈ blocks, ∀ {others behind}, DraftForest (some parent) others behind →
      DraftForest (some parent) (NumberedBlock.drafts names n parent ++ others)
        (NumberedBlock.lexemes n ++ behind)) :
    DraftForest (some parent) (blocks.flatMap fun n => NumberedBlock.drafts names n parent)
      (blocks.flatMap NumberedBlock.lexemes) := by
  induction blocks with
  | nil => exact .nil _ _
  | cons n blocks ih =>
    obtain ⟨first, later⟩ := List.forall_mem_cons.mp each
    exact first (ih later)

/-- A sound block in front of a forest, if the ids in it are told apart from that of the parent. -/
theorem DraftForest.cons_block {n : NumberedBlock} (sound : Block.Sound (NumberedBlock.erase n))
    (apart : (parent :: (NumberedBlock.tickets n).map Ticket.id).Nodup)
    (rest : DraftForest (some parent) others behind) :
    DraftForest (some parent) (NumberedBlock.drafts names n parent ++ others)
      (NumberedBlock.lexemes n ++ behind) := by
  -- By induction each child can stand in front of a forest, so the children together are one.
  induction n using Tree.induction_children generalizing parent others behind with
  | node n ih =>
    obtain ⟨own, children⟩ := Block.sound_iff.mp sound
    obtain ⟨outside, distinct⟩ := List.nodup_cons.mp apart
    have inside : DraftForest (some (NumberedBlock.draft names n parent).id)
        (n.children.flatMap fun c => NumberedBlock.drafts names c (NumberedBlock.ticket n).id)
        (n.children.flatMap NumberedBlock.lexemes) := by
      rw [id_draft]
      refine .of_blocks fun c child {_ _} rest => ih c child (children _ ?_)
        (nodup_ids_of_child child distinct) rest
      rw [NumberedBlock.erase, Tree.children_map]
      exact List.mem_map_of_mem child
    have fresh : ∀ e ∈ NumberedBlock.drafts names n parent, some e.id ≠ some parent := by
      intro e found same
      have held := List.mem_map_of_mem (f := Draft.id) found
      rw [map_id_blockDrafts, Option.some.inj same] at held
      exact outside held
    rw [drafts_eq_cons] at fresh ⊢
    rw [NumberedBlock.lexemes_eq]
    exact .cons (parent_draft n parent) (takes_draft own parent) inside (exists_braces n parent _)
      fresh rest

/-- An item with a body in front of a forest. -/
theorem DraftForest.cons_body {d : Draft} (own : d.parent = some parent) {front : List Lexeme}
    {opening closing : Lexeme} (takes : d.Takes (front ++ [closing])) (opened : opening ∈ front)
    (braces : d.body = some (opening, closing)) {body : NumberedBlock}
    (sound : Block.Sound (NumberedBlock.erase body))
    (apart : (d.id :: (NumberedBlock.tickets body).map Ticket.id).Nodup)
    (fresh : ∀ e ∈ d :: NumberedBlock.drafts names body d.id, e.id ≠ parent)
    (rest : DraftForest (some parent) others behind) :
    DraftForest (some parent) (d :: NumberedBlock.drafts names body d.id ++ others)
      ((front ++ (NumberedBlock.lexemes body ++ [closing])) ++ behind) := by
  have inside : DraftForest (some d.id) (NumberedBlock.drafts names body d.id ++ [])
      (NumberedBlock.lexemes body ++ []) := .cons_block sound apart (.nil _ [])
  rw [List.append_nil, List.append_nil] at inside
  exact .cons own takes inside
    (.inr ⟨opening, opened, closing, List.mem_singleton_self _, braces⟩)
    (fun e found same => fresh e found (Option.some.inj same)) rest

end Together

namespace ProjectBlock

variable {project : ProjectBlock} {item : NumberedItem} {others : List Draft}
  {behind : List Lexeme}

/-- No draft of an item has the id of the project. -/
theorem id_ne_of_mem_drafts {names : DefinedNames} {parent : NodeId} {d : Draft}
    (inside : d ∈ item.drafts names parent) : d.id ≠ NodeKind.project.name := by
  have held := List.mem_map_of_mem (f := Draft.id) inside
  rw [map_id_drafts] at held
  obtain ⟨t, -, same⟩ := List.mem_map.mp held
  rw [← same]
  exact t.id_ne_name rfl

/-- A sound item in front of a forest, with the drafts that it adds. -/
theorem DraftedAs.forest {own : List Draft}
    (drafted : DraftedAs project NodeKind.project.name item own) (held : item ∈ project.numbered)
    (sound : item.erase.Sound)
    (rest : DraftForest (some NodeKind.project.name) others behind) :
    DraftForest (some NodeKind.project.name) (own ++ others) (item.lexemes ++ behind) := by
  cases drafted with
  | settings block =>
    -- Nothing lies inside settings.
    have takes := takes_settingsDraft sound (project.written block.head.kind) NodeKind.project.name
    have other : block.head.kind.subject.kind.name ≠ NodeKind.project.name := by
      cases block.head.kind <;> decide
    have whole : DraftForest (some NodeKind.project.name) _
        ((owned block.written ++ ([] ++ [])) ++ behind) :=
      .cons rfl (by rwa [List.append_nil]) (.nil _ []) (.inl rfl)
        (List.forall_mem_singleton.mpr fun same => other (Option.some.inj same)) rest
    rwa [List.append_nil, List.append_nil] at whole
  | item =>
    have fresh := fun e (found : e ∈ item.drafts project.names NodeKind.project.name) =>
      id_ne_of_mem_drafts found
    cases item with
    | settings block =>
      -- Later settings of a kind only take up tokens.
      exact .skip _ rest
    | componentDefinition t head body closing =>
      rw [NumberedItem.erase, Item.Sound, ← erase_block] at sound
      rw [lexemes_componentDefinition]
      exact .cons_body rfl (takes_definitionDraft sound.1.1 sound.1.2 t _ _)
        (by simp [DefinitionHead.written]) rfl sound.2 (nodup_ids_of_body held rfl rfl) fresh rest
    | layoutDefinition t head l closing =>
      rw [NumberedItem.erase, Item.Sound, ← erase_toTree] at sound
      rw [lexemes_layoutDefinition]
      exact .cons_body rfl (takes_definitionDraft sound.1.1 sound.1.2 t _ _)
        (by simp [DefinitionHead.written]) rfl sound.2 (nodup_ids_of_body held rfl rfl) fresh rest
    | screen t head l closing =>
      rw [NumberedItem.erase, Item.Sound, ← erase_toTree] at sound
      rw [lexemes_screen]
      exact .cons_body rfl (takes_screenDraft sound.1.1 sound.1.2 t _)
        (by simp [ScreenHead.written]) rfl sound.2 (nodup_ids_of_body held rfl rfl) fresh rest

/-- The drafts of sound items are a forest. -/
theorem forest_itemDrafts (seen : List SettingsKind) {items : List NumberedItem}
    (held : ∀ item ∈ items, item ∈ project.numbered)
    (sound : ∀ item ∈ items, item.erase.Sound) :
    DraftForest (some NodeKind.project.name)
      (project.itemDrafts NodeKind.project.name seen items)
      (items.flatMap NumberedItem.lexemes) := by
  induction items generalizing seen with
  | nil => exact .nil _ _
  | cons item items ih =>
    obtain ⟨first, others⟩ := List.forall_mem_cons.mp held
    obtain ⟨own, later⟩ := List.forall_mem_cons.mp sound
    obtain ⟨mine, seen', drafts, drafted⟩ :=
      itemDrafts_eq_append project NodeKind.project.name seen item items
    rw [drafts]
    exact drafted.forest first own (ih seen' others later)

theorem takes_draft (sound : project.Sound) :
    project.draft.Takes (owned project.head.written ++ [project.closing]) := by
  have shape : owned project.head.written =
      [project.head.keyword, project.head.name, project.head.opening] := rfl
  rw [shape]
  refine Draft.takes_of_body rfl (by simp) sound.head.opening sound.closing rfl rfl
    (.cons_cons _ (List.nil_sublist _)) (by simp [draft]) fun _ => ?_
  exact fun ps found => absurd found (Option.not_mem_none ps)

theorem exists_braces (project : ProjectBlock) :
    ∃ opening ∈ owned project.head.written, ∃ closing ∈ [project.closing],
      project.draft.body = some (opening, closing) :=
  ⟨project.head.opening, by simp [ProjectHead.written], project.closing,
    List.mem_singleton_self _, rfl⟩

/-- The drafts of everything in a sound project are a forest. -/
theorem forest_inside (sound : project.Sound) :
    DraftForest (some project.draft.id)
      (project.itemDrafts NodeKind.project.name [] project.numbered)
      (project.numbered.flatMap NumberedItem.lexemes) :=
  forest_itemDrafts [] (fun _ held => held) fun _ held => sound.items _ (erase_mem_items held)

/-- The drafts of a sound project are a forest over its tokens. -/
theorem draftForest (sound : project.Sound) :
    DraftForest none project.drafts (owned project.inWrittenOrder) := by
  have whole : DraftForest none (project.drafts ++ [])
      ((owned project.head.written ++
        (project.numbered.flatMap NumberedItem.lexemes ++ [project.closing])) ++ []) :=
    .cons rfl (takes_draft sound) (forest_inside sound) (.inr (exists_braces project))
      (fun _ _ => Option.some_ne_none _) (.nil none [])
  rw [List.append_nil, List.append_nil] at whole
  rwa [owned_inWrittenOrder]

/-- Every part of a sound project but the project itself lies between the braces of its parent. -/
theorem nests (sound : project.Sound) (ordered : InSequence (owned project.inWrittenOrder)) :
    Nests [project.draft] (project.itemDrafts NodeKind.project.name [] project.numbered) := by
  have inside := forest_inside sound
  rw [owned_inWrittenOrder] at ordered
  refine inside.nests ordered.right.left rfl (List.find?_cons_of_pos (by simp)) fun e below => ?_
  exact inside.encloses_of_mem (.inr (exists_braces project)) ordered below

end ProjectBlock

end Wireframe
