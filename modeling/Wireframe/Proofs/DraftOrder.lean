import Wireframe.Proofs.Lossless
import Wireframe.Proofs.Tickets

/-!
# The order of siblings

The tokens of a text stop one after the other, and a block is written between two of them. So of two
parts inside the same part the later one also stops later, and the child of a container that ends
last is the last one that has a draft. Where it ends is not needed to find it.

## Main definitions

* `owned` — the tokens that are held among those given back.
* `NumberedBlock.erase`, `NumberedItem.erase` — blocks and items without their tickets.
* `Draft.Precedes` — of two parts inside the same part the first one stops first.

## Main results

* `Block.written_eq` — a block is written around the blocks inside it.
* `ProjectBlock.pairwise_precedes` — the drafts of a project precede one another.
* `ProjectBlock.lastChild?_eq` — the child that ends last is the last one.
-/

namespace Wireframe

/-- What an entry adds to a list stands in that list without a gap. -/
theorem infix_flatMap_of_mem {α β : Type} {f : α → List β} {l : List α} {a : α} (inside : a ∈ l) :
    f a <:+: l.flatMap f := by
  rw [List.flatMap_def]
  exact List.infix_of_mem_flatten (List.mem_map_of_mem inside)

/-! ### Tokens that are held -/

/-- The token that a block holds. -/
def Written.own? : Written → Option Lexeme
  | .own lexeme => some lexeme
  | .mark _ => none

/-- The tokens that are held among those given back. -/
def owned (ws : List Written) : List Lexeme :=
  ws.filterMap Written.own?

section Owned

variable {xs ys ws : List Written} {ls : List Lexeme}

@[simp]
theorem owned_nil : owned [] = [] :=
  rfl

@[simp]
theorem owned_own (l : Lexeme) (ws : List Written) : owned (.own l :: ws) = l :: owned ws :=
  rfl

@[simp]
theorem owned_mark (sign : Mark) (ws : List Written) : owned (.mark sign :: ws) = owned ws :=
  rfl

@[simp]
theorem owned_append : owned (xs ++ ys) = owned xs ++ owned ys :=
  List.filterMap_append

theorem owned_flatMap {α : Type} (f : α → List Written) (l : List α) :
    owned (l.flatMap f) = l.flatMap fun a => owned (f a) :=
  List.filterMap_flatMap

/-- What is held of a text that was read stands in it in the same order. -/
theorem owned_sublist (fits : List.Forall₂ Written.Fits ws ls) : (owned ws).Sublist ls := by
  induction fits with
  | nil => exact .slnil
  | @cons w l ws ls head _ ih =>
    cases w with
    | own held =>
      obtain rfl : held = l := head
      exact ih.cons_cons held
    | mark sign => exact ih.cons l

end Owned

/-- A token stops earlier than another. -/
def Lexeme.StopsBefore (l m : Lexeme) : Prop :=
  l.range.stop.Before m.range.stop

/-- The tokens of a text stop one after the other. -/
theorem scan_pairwise_stopsBefore (text : List Char) :
    (scan text).lexemes.Pairwise Lexeme.StopsBefore := by
  refine (lexemes_pairwise_apart text).imp_of_mem ?_
  intro l m inL inM ahead
  obtain ⟨standsL, rangeL⟩ := stands_of_mem_lexemes inL
  obtain ⟨standsM, rangeM⟩ := stands_of_mem_lexemes inM
  have long := start_lt_stop_of_mem_lexemes inM
  rw [Lexeme.StopsBefore, rangeL, rangeM]
  exact position_before_of_lt standsL.onBoundaries.stop standsM.onBoundaries.stop (by omega)

/-- No token of a text stands twice. -/
theorem scan_nodup (text : List Char) : (scan text).lexemes.Nodup :=
  (scan_pairwise_stopsBefore text).imp fun before same =>
    before.asymm (by rwa [same] at before ⊢)

/-! ### Hulls -/

namespace Hull

/-- The tokens of a hull. -/
def lexemes (h : Hull) : List Lexeme :=
  h.first :: h.others

/-- The last token of a hull. -/
def last (h : Hull) : Lexeme :=
  h.others.getLast?.getD h.first

theorem last_mem (h : Hull) : h.last ∈ h.lexemes := by
  rw [last, lexemes]
  cases found : h.others.getLast? with
  | none => exact List.mem_cons_self
  | some l => exact List.mem_cons_of_mem _ (List.mem_of_getLast? found)

/-- A hull stops where its last token does. -/
theorem range_stop (h : Hull) (ordered : h.lexemes.Pairwise Lexeme.StopsBefore) :
    h.range.stop = h.last.range.stop := by
  obtain ⟨first, others⟩ := h
  simp only [lexemes, range, last] at ordered ⊢
  -- The range so far stops where the token behind it stops, whatever came before that.
  generalize stops : first.range = range
  have before : range.stop = first.range.stop := by rw [stops]
  clear stops
  induction others generalizing first range with
  | nil => exact before
  | cons l others ih =>
    obtain ⟨ahead, rest⟩ := List.pairwise_cons.mp ordered
    have later : range.stop.Before l.range.stop := by
      rw [before]
      exact ahead l List.mem_cons_self
    have stop : (range.union l.range).stop = l.range.stop := by
      rw [CodeRange.union, if_pos later]
    rw [List.foldl_cons, ih l rest _ stop, List.getLast?_cons, Option.getD_some]

end Hull

/-! ### Blocks and the blocks inside them -/

/-- What is written of a block before the blocks inside it. -/
def Block.front : Block → List Written
  | .component c => c.written
  | .layout l _ => l.head.written
  | .cell k _ => k.head.written

/-- What is written of a block behind the blocks inside it. -/
def Block.back : Block → List Written
  | .component _ => []
  | .layout l _ => [.own l.closing]
  | .cell k _ => [.own k.closing]

/-- A block is written around the blocks inside it. -/
theorem Block.written_eq (b : Block) :
    Block.written b = Block.front b ++ (b.children.flatMap Block.written ++ Block.back b) := by
  cases b <;> simp [Block.front, Block.back, Tree.children]

/-- A block without its ticket. -/
def NumberedBlock.erase : NumberedBlock → Block :=
  Tree.map Prod.snd Prod.snd Prod.snd

/-- The tokens that a block holds. -/
def NumberedBlock.lexemes (n : NumberedBlock) : List Lexeme :=
  owned (Block.written (NumberedBlock.erase n))

theorem NumberedBlock.lexemes_eq (n : NumberedBlock) :
    NumberedBlock.lexemes n = owned (Block.front (NumberedBlock.erase n)) ++
      (n.children.flatMap NumberedBlock.lexemes ++
        owned (Block.back (NumberedBlock.erase n))) := by
  rw [lexemes, Block.written_eq, owned_append, owned_append, owned_flatMap, erase,
    Tree.children_map, List.flatMap_map]
  rfl

theorem erase_numberAll {blocks : List Block}
    (each : ∀ b ∈ blocks, ∀ used, NumberedBlock.erase (number b used).1 = b)
    (used : List IdFamily) :
    (numberAll blocks used).1.map NumberedBlock.erase = blocks := by
  induction blocks generalizing used with
  | nil => rfl
  | cons b blocks ih =>
    obtain ⟨first, others⟩ := List.forall_mem_cons.mp each
    simp only [numberAll, Numbered.bind_apply, Numbered.pure_apply, List.map_cons, first,
      ih others]

/-- Numbering a block only adds tickets. -/
theorem erase_number (b : Block) (used : List IdFamily) :
    NumberedBlock.erase (number b used).1 = b := by
  induction b using Tree.induction generalizing used with
  | component c => rw [number, NumberedBlock.erase, Tree.map]; rfl
  | layout l blocks ih =>
    have inside := erase_numberAll ih (ticket l.head.family used).2
    rw [NumberedBlock.erase] at inside ⊢
    simp only [number, Numbered.bind_apply, Numbered.pure_apply, Tree.map, Tree.fold_layout]
    exact congrArg _ inside
  | cell k blocks ih =>
    have inside := erase_numberAll ih (ticket .cell used).2
    rw [NumberedBlock.erase] at inside ⊢
    simp only [number, Numbered.bind_apply, Numbered.pure_apply, Tree.map, Tree.fold_cell]
    exact congrArg _ inside

section Wholes

variable {names : DefinedNames} {parent : NodeId}

theorem ComponentBlock.last_mem (c : ComponentBlock) :
    c.last ∈ c.kind :: owned (c.properties.flatMap WrittenProperty.written) := by
  rw [ComponentBlock.last]
  cases found : c.properties.getLast? with
  | none => exact List.mem_cons_self
  | some p =>
    have value : p.value ∈ owned p.written := by simp [WrittenProperty.written]
    rw [owned_flatMap]
    exact List.mem_cons_of_mem _ (List.mem_flatMap.mpr ⟨p, List.mem_of_getLast? found, value⟩)

theorem sublist_blockHull (keyword closing : Lexeme) (params : Option ParamList)
    (before after : List Lexeme) :
    (blockHull keyword params closing).lexemes.Sublist
      (keyword :: (before ++ (owned (writtenParams params) ++ (after ++ [closing])))) := by
  refine .cons_cons keyword ?_
  have behind : [closing].Sublist (after ++ [closing]) := List.sublist_append_right _ _
  refine List.Sublist.trans ?_ (List.sublist_append_right before _)
  cases params with
  | none => exact behind
  | some list =>
    have parens : [list.opening, list.closing].Sublist (owned list.written) := by
      rw [ParamList.written, owned_own, owned_append]
      exact .cons_cons _ (List.sublist_append_right _ _)
    exact parens.append behind

/-- A block takes up tokens that it holds. -/
theorem sublist_whole (n : NumberedBlock) (parent : NodeId) :
    (NumberedBlock.draft names n parent).whole.lexemes.Sublist (NumberedBlock.lexemes n) := by
  rw [NumberedBlock.lexemes_eq]
  cases n with
  | component c =>
    refine List.Sublist.trans ?_ (List.sublist_append_left _ _)
    have last := List.singleton_sublist.mpr c.2.last_mem
    exact .cons_cons c.2.keyword last
  | layout l trees =>
    have hull := sublist_blockHull l.2.head.keyword l.2.closing l.2.head.params [l.2.head.kind]
      (l.2.head.opening :: trees.flatMap NumberedBlock.lexemes)
    simpa [NumberedBlock.draft, layoutDraft, NumberedBlock.erase, Tree.map, Block.front,
      Block.back, LayoutHead.written, Tree.children] using hull
  | cell k trees =>
    refine .cons_cons k.2.head.keyword ?_
    refine List.Sublist.trans ?_ (List.sublist_append_right _ _)
    exact List.sublist_append_right _ _

theorem sublist_of_mem_blockDrafts {n : NumberedBlock} {d : Draft}
    (inside : d ∈ NumberedBlock.drafts names n parent) :
    d.whole.lexemes.Sublist (NumberedBlock.lexemes n) := by
  induction n using Tree.induction_children generalizing parent with
  | node n ih =>
    rw [drafts_eq_cons] at inside
    rcases List.mem_cons.mp inside with rfl | below
    · exact sublist_whole n parent
    · obtain ⟨c, child, found⟩ := List.mem_flatMap.mp below
      have part : (NumberedBlock.lexemes c).Sublist (n.children.flatMap NumberedBlock.lexemes) :=
        (infix_flatMap_of_mem child).sublist
      rw [NumberedBlock.lexemes_eq]
      exact ((ih c child found).trans part).trans
        ((List.sublist_append_left _ _).trans (List.sublist_append_right _ _))

end Wholes

/-! ### Siblings -/

/-- Of two parts inside the same part the first one stops first. -/
def Draft.Precedes (d e : Draft) : Prop :=
  d.parent = e.parent → d.whole.last.StopsBefore e.whole.last

section Precedes

variable {names : DefinedNames} {parent : NodeId} {xs ys : List Lexeme} {d e : Draft}

/-- What takes up tokens in front of those of another part precedes it. -/
theorem Draft.precedes_of_sublist (left : d.whole.lexemes.Sublist xs)
    (right : e.whole.lexemes.Sublist ys)
    (ahead : ∀ l ∈ xs, ∀ m ∈ ys, l.StopsBefore m) : d.Precedes e :=
  fun _ => ahead _ (left.subset d.whole.last_mem) _ (right.subset e.whole.last_mem)

/-- If the ids in a block are told apart, so are those in a child from that of the block. -/
theorem nodup_ids_of_child {n c : NumberedBlock} (child : c ∈ n.children)
    (distinct : ((NumberedBlock.tickets n).map Ticket.id).Nodup) :
    ((NumberedBlock.ticket n).id :: (NumberedBlock.tickets c).map Ticket.id).Nodup := by
  rw [tickets_eq_cons, List.map_cons, List.map_flatMap] at distinct
  have part := infix_flatMap_of_mem (f := fun c => (NumberedBlock.tickets c).map Ticket.id) child
  exact distinct.sublist (part.sublist.cons_cons _)

/-- The drafts of a block and of all blocks inside it precede one another, if all their ids are told
apart. -/
theorem pairwise_blockDrafts {n : NumberedBlock}
    (apart : (parent :: (NumberedBlock.tickets n).map Ticket.id).Nodup)
    (ordered : (NumberedBlock.lexemes n).Pairwise Lexeme.StopsBefore) :
    (NumberedBlock.drafts names n parent).Pairwise Draft.Precedes := by
  induction n using Tree.induction_children generalizing parent with
  | node n ih =>
    obtain ⟨outside, distinct⟩ := List.nodup_cons.mp apart
    rw [drafts_eq_cons]
    refine List.pairwise_cons.mpr ⟨fun d below siblings => ?_, ?_⟩
    · -- A part inside the block lies in a part that took a ticket there.
      exfalso
      obtain ⟨c, child, found⟩ := List.mem_flatMap.mp below
      rw [parent_draft] at siblings
      have held : ∃ t ∈ NumberedBlock.tickets n, d.parent = some t.id := by
        rw [tickets_eq_cons]
        rcases parent_of_mem_blockDrafts found with own | ⟨t, inside, own⟩
        · exact ⟨_, List.mem_cons_self, own⟩
        · exact ⟨t, List.mem_cons_of_mem _ (List.mem_flatMap.mpr ⟨c, child, inside⟩), own⟩
      obtain ⟨t, inside, own⟩ := held
      rw [own] at siblings
      rw [Option.some.inj siblings] at outside
      exact outside (List.mem_map_of_mem inside)
    · rw [NumberedBlock.lexemes_eq] at ordered
      have inner := (List.pairwise_append.mp (List.pairwise_append.mp ordered).2.1).1
      obtain ⟨each, between⟩ := List.pairwise_flatMap.mp inner
      refine List.pairwise_flatMap.mpr ⟨fun c child => ?_, ?_⟩
      · exact ih c child (nodup_ids_of_child child distinct) (each c child)
      · exact between.imp fun ahead d inD e inE =>
          Draft.precedes_of_sublist (sublist_of_mem_blockDrafts inD)
            (sublist_of_mem_blockDrafts inE) ahead

end Precedes

/-! ### Items -/

/-- A layout without its tickets. -/
def NumberedLayout.erase (l : NumberedLayout) : LayoutBlock :=
  ⟨l.layout.2, l.children.map NumberedBlock.erase⟩

/-- The body without its tickets. -/
def NumberedBody.erase : NumberedBody → DefinitionBody
  | .layout l => .layout (NumberedLayout.erase l)
  | .component c => .component c.2

namespace NumberedItem

/-- The item without its tickets. -/
def erase : NumberedItem → Item
  | .settings block => .settings block
  | .componentDefinition _ head body closing => .definition (.component head body.erase closing)
  | .layoutDefinition _ head l closing =>
    .definition (.layout head (NumberedLayout.erase l) closing)
  | .screen _ head l closing => .screen ⟨head, NumberedLayout.erase l, closing⟩

/-- The tokens that an item holds. -/
def lexemes (item : NumberedItem) : List Lexeme :=
  owned item.erase.written

end NumberedItem

theorem erase_toTree (l : NumberedLayout) :
    NumberedBlock.erase l.toTree = (NumberedLayout.erase l).toTree := by
  simp only [Rooted.toTree, NumberedBlock.erase, Tree.map, Tree.fold_layout, NumberedLayout.erase]

theorem erase_numberLayout (l : LayoutBlock) (used : List IdFamily) :
    NumberedLayout.erase (numberLayout l used).1 = l := by
  have numbered := erase_number l.toTree used
  rw [number_toTree, erase_toTree] at numbered
  obtain ⟨layout, children⟩ := Tree.layout.inj numbered
  cases l
  rw [Rooted.mk.injEq]
  exact ⟨layout, children⟩

/-- Numbering an item only adds tickets. -/
theorem Item.erase_number (item : Item) (used : List IdFamily) :
    (item.number used).1.erase = item := by
  match item with
  | .settings block => rfl
  | .definition (.component head (.layout l) closing) =>
    have same := erase_numberLayout l (ticket head.family used).2
    simp only [Item.number, DefinitionBody.number, Numbered.bind_apply, Numbered.pure_apply,
      NumberedItem.erase, NumberedBody.erase, same]
  | .definition (.component head (.component c) closing) => rfl
  | .definition (.layout head l closing) =>
    have same := erase_numberLayout l (ticket head.family used).2
    simp only [Item.number, Numbered.bind_apply, Numbered.pure_apply, NumberedItem.erase, same]
  | .screen block =>
    have same := erase_numberLayout block.layout (ticket .screen used).2
    simp only [Item.number, Numbered.bind_apply, Numbered.pure_apply, NumberedItem.erase, same]

theorem map_erase_numberItems (items : List Item) (used : List IdFamily) :
    (numberItems items used).1.map NumberedItem.erase = items := by
  induction items generalizing used with
  | nil => rfl
  | cons item items ih =>
    simp only [numberItems, Numbered.bind_apply, Numbered.pure_apply, List.map_cons,
      item.erase_number, ih]

theorem erase_block (body : NumberedBody) :
    NumberedBlock.erase body.block = body.erase.block := by
  cases body with
  | layout l => exact erase_toTree l
  | component c =>
    simp only [NumberedBody.block, NumberedBlock.erase, Tree.map, Tree.fold_component,
      NumberedBody.erase, DefinitionBody.block]

section ItemLexemes

variable (t : Ticket) (closing : Lexeme)

theorem lexemes_componentDefinition (head : DefinitionHead) (body : NumberedBody) :
    (NumberedItem.componentDefinition t head body closing).lexemes =
      owned head.written ++ (NumberedBlock.lexemes body.block ++ [closing]) := by
  rw [NumberedItem.lexemes, NumberedItem.erase, Item.written, Item.writtenWith, owned_append,
    owned_append, NumberedBlock.lexemes, erase_block]
  rfl

theorem lexemes_layoutDefinition (head : DefinitionHead) (l : NumberedLayout) :
    (NumberedItem.layoutDefinition t head l closing).lexemes =
      owned head.written ++ (NumberedBlock.lexemes l.toTree ++ [closing]) := by
  rw [NumberedItem.lexemes, NumberedItem.erase, Item.written, Item.writtenWith, owned_append,
    owned_append, NumberedBlock.lexemes, erase_toTree]
  rfl

theorem lexemes_screen (head : ScreenHead) (l : NumberedLayout) :
    (NumberedItem.screen t head l closing).lexemes =
      owned head.written ++ (NumberedBlock.lexemes l.toTree ++ [closing]) := by
  rw [NumberedItem.lexemes, NumberedItem.erase, Item.written, Item.writtenWith, owned_append,
    owned_append, NumberedBlock.lexemes, erase_toTree]
  rfl

end ItemLexemes

/-- An item with a body is written around it, and its own draft comes before those of the body. -/
theorem NumberedItem.exists_draft (names : DefinedNames) (parent : NodeId) {item : NumberedItem}
    {body : NumberedBlock} (held : item.body? = some body) :
    ∃ (t : Ticket) (d : Draft) (before : List Lexeme) (closing : Lexeme),
      item.tickets = t :: NumberedBlock.tickets body ∧
      item.drafts names parent = d :: NumberedBlock.drafts names body t.id ∧
      d.parent = some parent ∧
      item.lexemes = before ++ (NumberedBlock.lexemes body ++ [closing]) ∧
      d.whole.lexemes.Sublist (before ++ [closing]) := by
  cases item with
  | settings => contradiction
  | componentDefinition t head body closing =>
    obtain rfl := Option.some.inj held
    exact ⟨t, _, owned head.written, closing, rfl, rfl, rfl,
      lexemes_componentDefinition t closing head body,
      .cons_cons head.define (List.sublist_append_right _ [closing])⟩
  | layoutDefinition t head l closing =>
    obtain rfl := Option.some.inj held
    exact ⟨t, _, owned head.written, closing, rfl, rfl, rfl,
      lexemes_layoutDefinition t closing head l,
      .cons_cons head.define (List.sublist_append_right _ [closing])⟩
  | screen t head l closing =>
    obtain rfl := Option.some.inj held
    refine ⟨t, _, owned head.written, closing, rfl, rfl, rfl, lexemes_screen t closing head l, ?_⟩
    have hull := sublist_blockHull head.keyword closing head.params [head.name] [head.opening]
    simpa [screenDraft, ScreenHead.written] using hull

namespace ProjectBlock

variable {project : ProjectBlock}

/-- Without their tickets the numbered items of a project are its items. -/
theorem map_erase_numbered (project : ProjectBlock) :
    project.numbered.map NumberedItem.erase = project.items :=
  map_erase_numberItems project.items []

theorem erase_mem_items {item : NumberedItem} (inside : item ∈ project.numbered) :
    item.erase ∈ project.items := by
  rw [← project.map_erase_numbered]
  exact List.mem_map_of_mem inside

/-- Inside an item no id clashes with another one. -/
theorem nodup_ids_of_body {item : NumberedItem} (inside : item ∈ project.numbered)
    {body : NumberedBlock} (held : item.body? = some body) {t : Ticket}
    (tickets : item.tickets = t :: NumberedBlock.tickets body) :
    (t.id :: (NumberedBlock.tickets body).map Ticket.id).Nodup := by
  have distinct := (List.nodup_flatMap.mp project.nodup_tickets).1 item inside
  rw [tickets] at distinct
  obtain ⟨outside, distinct⟩ := List.nodup_cons.mp distinct
  have plain := project.plain_body inside held
  refine List.nodup_cons.mpr ⟨fun again => ?_, ?_⟩
  · obtain ⟨u, own, same⟩ := List.mem_map.mp again
    rw [Ticket.eq_of_id same (plain u own)] at own
    exact outside own
  · exact (List.nodup_map_iff_inj_on distinct).mpr fun u own v _ same =>
      Ticket.eq_of_id same (plain u own)

theorem pairwise_drafts {item : NumberedItem} (inside : item ∈ project.numbered)
    (ordered : item.lexemes.Pairwise Lexeme.StopsBefore) :
    (item.drafts project.names NodeKind.project.name).Pairwise Draft.Precedes := by
  cases held : item.body? with
  | none =>
    cases item with
    | settings => exact .nil
    | componentDefinition | layoutDefinition | screen => contradiction
  | some body =>
    obtain ⟨t, d, before, closing, tickets, drafts, parent, lexemes, -⟩ :=
      NumberedItem.exists_draft project.names NodeKind.project.name held
    rw [drafts]
    rw [lexemes] at ordered
    refine List.pairwise_cons.mpr ⟨fun e below siblings => ?_, ?_⟩
    · -- A part inside the item does not lie in the project itself.
      exfalso
      rw [parent] at siblings
      rcases parent_of_mem_blockDrafts below with own | ⟨u, -, own⟩
      · rw [own] at siblings
        exact t.id_ne_name rfl (Option.some.inj siblings).symm
      · rw [own] at siblings
        exact u.id_ne_name rfl (Option.some.inj siblings).symm
    · exact pairwise_blockDrafts (nodup_ids_of_body inside held tickets)
        (List.pairwise_append.mp (List.pairwise_append.mp ordered).2.1).1

section DraftedAs

variable {parent : NodeId} {item : NumberedItem} {own : List Draft} {d : Draft}

/-- What an item is drafted as takes up tokens that the item holds. -/
theorem DraftedAs.sublist (drafted : DraftedAs project parent item own) (inside : d ∈ own) :
    d.whole.lexemes.Sublist item.lexemes := by
  cases drafted with
  | item =>
    cases held : item.body? with
    | none => cases item <;> contradiction
    | some body =>
      obtain ⟨t, e, before, closing, -, drafts, -, lexemes, whole⟩ :=
        NumberedItem.exists_draft project.names parent held
      rw [drafts] at inside
      rw [lexemes]
      rcases List.mem_cons.mp inside with rfl | below
      · exact whole.trans ((List.sublist_append_right _ _).append_left before)
      · exact (sublist_of_mem_blockDrafts below).trans
          ((List.sublist_append_left _ _).trans (List.sublist_append_right _ _))
  | settings block =>
    obtain rfl := List.mem_singleton.mp inside
    have shape : (NumberedItem.settings block).lexemes = block.head.keyword ::
        (block.head.opening :: owned (block.properties.flatMap WrittenProperty.written) ++
          [block.closing]) := by
      simp [NumberedItem.lexemes, NumberedItem.erase, Item.written, Item.writtenWith,
        SettingsBlock.written, SettingsHead.written]
    rw [shape]
    exact .cons_cons block.head.keyword (List.sublist_append_right _ _)

theorem DraftedAs.exists_parent (drafted : DraftedAs project parent item own) (inside : d ∈ own) :
    ∃ id, d.parent = some id := by
  cases drafted with
  | item =>
    rcases parent_of_mem_drafts inside with held | ⟨t, -, held⟩
    · exact ⟨_, held⟩
    · exact ⟨_, held⟩
  | settings block =>
    obtain rfl := List.mem_singleton.mp inside
    exact ⟨_, rfl⟩

end DraftedAs

/-- The drafts of items precede one another. -/
theorem pairwise_itemDrafts (seen : List SettingsKind) {items : List NumberedItem}
    (inside : ∀ item ∈ items, item ∈ project.numbered)
    (ordered : (items.flatMap NumberedItem.lexemes).Pairwise Lexeme.StopsBefore) :
    (project.itemDrafts NodeKind.project.name seen items).Pairwise Draft.Precedes := by
  induction items generalizing seen with
  | nil => exact .nil
  | cons item items ih =>
    obtain ⟨first, others⟩ := List.forall_mem_cons.mp inside
    obtain ⟨own, seen', drafts, drafted⟩ :=
      itemDrafts_eq_append project NodeKind.project.name seen item items
    rw [List.flatMap_cons] at ordered
    obtain ⟨inItem, rest, ahead⟩ := List.pairwise_append.mp ordered
    have inOwn : own.Pairwise Draft.Precedes := by
      cases drafted with
      | item => exact pairwise_drafts first inItem
      | settings block => exact List.pairwise_singleton _ _
    rw [drafts]
    refine List.pairwise_append.mpr ⟨inOwn, ih seen' others rest, fun d mine e theirs => ?_⟩
    obtain ⟨other, held, row, draftedToo, found⟩ := exists_draftedAs theirs
    exact Draft.precedes_of_sublist (drafted.sublist mine) (draftedToo.sublist found)
      fun l inL m inM => ahead l inL m (List.mem_flatMap.mpr ⟨other, held, inM⟩)

/-- The tokens of a project are those of its items between those of the project itself. -/
theorem owned_inWrittenOrder (project : ProjectBlock) :
    owned project.inWrittenOrder = owned project.head.written ++
      (project.numbered.flatMap NumberedItem.lexemes ++ [project.closing]) := by
  have same : owned (project.items.flatMap Item.written) =
      project.numbered.flatMap NumberedItem.lexemes := by
    rw [owned_flatMap, ← project.map_erase_numbered, List.flatMap_map]
    rfl
  rw [inWrittenOrder, owned_append, owned_append, same]
  rfl

/-- Every part of a project takes up tokens that the project holds. -/
theorem sublist_of_mem_drafts {d : Draft} (inside : d ∈ project.drafts) :
    d.whole.lexemes.Sublist (owned project.inWrittenOrder) := by
  rw [owned_inWrittenOrder]
  rcases List.mem_cons.mp inside with rfl | below
  · refine .cons_cons project.head.keyword ?_
    exact (List.sublist_append_right _ _).trans (List.sublist_append_right _ _)
  · obtain ⟨item, held, own, drafted, found⟩ := exists_draftedAs below
    have part : item.lexemes.Sublist (project.numbered.flatMap NumberedItem.lexemes) :=
      (infix_flatMap_of_mem held).sublist
    exact ((drafted.sublist found).trans part).trans
      ((List.sublist_append_left _ _).trans (List.sublist_append_right _ _))

/-- The drafts of a project precede one another if its tokens stop one after the other. -/
theorem pairwise_precedes
    (ordered : (owned project.inWrittenOrder).Pairwise Lexeme.StopsBefore) :
    project.drafts.Pairwise Draft.Precedes := by
  refine List.pairwise_cons.mpr ⟨fun d below siblings => ?_, ?_⟩
  · -- Only the project itself lies in nothing.
    exfalso
    obtain ⟨item, -, own, drafted, found⟩ := exists_draftedAs below
    obtain ⟨id, parent⟩ := drafted.exists_parent found
    rw [parent] at siblings
    contradiction
  · rw [owned_inWrittenOrder] at ordered
    exact pairwise_itemDrafts [] (fun _ inside => inside)
      (List.pairwise_append.mp (List.pairwise_append.mp ordered).2.1).1

end ProjectBlock

/-! ### The child that ends last -/

/-- Where the children of a container are listed in the order in which they stop, the last one
stops last. -/
theorem lastChild?_eq_getLast? {entries : List Entry} {id : NodeId}
    (ordered : (entries.filter (·.parent == some id)).Pairwise fun d e =>
      ¬ e.range.stop.Before d.range.stop) :
    lastChild? entries id = (entries.filter (·.parent == some id)).getLast? := by
  unfold lastChild?
  generalize entries.filter (·.parent == some id) = children at ordered ⊢
  induction children using List.reverseRecOn with
  | nil => rfl
  | append_singleton children e ih =>
    obtain ⟨before, -, ahead⟩ := List.pairwise_append.mp ordered
    rw [List.foldl_append, ih before, List.getLast?_concat]
    cases found : children.getLast? with
    | none => rfl
    | some last =>
      have later := ahead last (List.mem_of_getLast? found) e List.mem_cons_self
      simp only [List.foldl_cons, List.foldl_nil, if_neg later]

/-- The child of a container that ends last is the last one that has a draft. -/
theorem ProjectBlock.lastChild?_eq {project : ProjectBlock}
    (ordered : (owned project.inWrittenOrder).Pairwise Lexeme.StopsBefore) (id : NodeId) :
    lastChild? (project.drafts.map Draft.entry) id =
      ((project.drafts.filter (·.parent == some id)).getLast?).map Draft.entry := by
  have stop : ∀ d ∈ project.drafts, d.entry.range.stop = d.whole.last.range.stop :=
    fun d inside => d.whole.range_stop (ordered.sublist (sublist_of_mem_drafts inside))
  have siblings : (project.drafts.map Draft.entry).filter (·.parent == some id) =
      (project.drafts.filter (·.parent == some id)).map Draft.entry := by
    rw [List.filter_map]
    rfl
  rw [lastChild?_eq_getLast?, siblings, List.getLast?_map]
  rw [siblings]
  refine List.pairwise_map.mpr (((pairwise_precedes ordered).filter _).imp_of_mem ?_)
  intro d e inD inE precedes
  obtain ⟨drafted, parent⟩ := List.mem_filter.mp inD
  obtain ⟨drafted', parent'⟩ := List.mem_filter.mp inE
  have before := precedes ((eq_of_beq parent).trans (eq_of_beq parent').symm)
  rw [stop d drafted, stop e drafted']
  exact before.asymm

section Read

variable {text : List Char} {project : ProjectBlock}
  (read : ProjectBlock.ofLexemes (scan text).lexemes = .ok project)

include read

/-- The tokens that a project holds stop one after the other. -/
theorem ProjectBlock.pairwise_owned :
    (owned project.inWrittenOrder).Pairwise Lexeme.StopsBefore :=
  (scan_pairwise_stopsBefore text).sublist (owned_sublist (written_fits read).2)

/-- In a text that was read the child of a container that ends last is the last one that has a
draft. -/
theorem lastChild?_of_read (id : NodeId) :
    lastChild? (project.drafts.map Draft.entry) id =
      ((project.drafts.filter (·.parent == some id)).getLast?).map Draft.entry :=
  project.lastChild?_eq (ProjectBlock.pairwise_owned read) id

end Read

end Wireframe
