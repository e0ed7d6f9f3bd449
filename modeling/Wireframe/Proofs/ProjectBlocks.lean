import Mathlib.Data.List.Perm.Basic
import Wireframe.Proofs.DraftOrder
import Wireframe.Proofs.Mirror

/-!
# The blocks of a project

Components, layouts and cells stand in items, and what is asked about one of them is mostly asked
wherever it stands. Here the blocks of all items are taken together. A block of a project is told by
its ticket, by the id of that ticket and by the brace that closes it.

## Main definitions

* `ProjectBlock.blocks` — the numbered blocks of a project.
* `NumberedBlock.closing?` — the brace that closes a block.

## Main results

* `ProjectBlock.filter_drafts` — what lies in a block are its children, in order.
* `ProjectBlock.eq_of_id`, `ProjectBlock.eq_of_closing` — what tells blocks apart.
* `ProjectBlock.written_infix_of_mem_blocks` — a block stands in the project as it is written.
* `ProjectBlock.perm_ids` — the parts of a project bear the ids of its tickets.
-/

namespace Wireframe

/-- Where only one entry of a list adds something, that is all there is. It is told by what it owns,
and nothing is owned twice. -/
theorem flatMap_eq_of_nodup {α β κ : Type} {l : List α} {owns : α → List κ} {f : α → List β}
    {k : κ} {a : α} (distinct : (l.flatMap owns).Nodup) (inside : a ∈ l) (own : k ∈ owns a)
    (other : ∀ b ∈ l, k ∉ owns b → f b = []) : l.flatMap f = f a := by
  obtain ⟨before, after, rfl⟩ := List.append_of_mem inside
  rw [List.flatMap_append, List.flatMap_cons] at distinct
  obtain ⟨-, rest, ahead⟩ := List.nodup_append.mp distinct
  obtain ⟨-, -, behind⟩ := List.nodup_append.mp rest
  have front : before.flatMap f = [] := by
    refine List.flatMap_eq_nil_iff.mpr fun b held => ?_
    refine other b (List.mem_append_left _ held) fun taken => ?_
    exact ahead k (List.mem_flatMap.mpr ⟨b, held, taken⟩) k (List.mem_append_left _ own) rfl
  have back : after.flatMap f = [] := by
    refine List.flatMap_eq_nil_iff.mpr fun b held => ?_
    refine other b (List.mem_append_right _ (List.mem_cons_of_mem _ held)) fun taken => ?_
    exact behind k own k (List.mem_flatMap.mpr ⟨b, held, taken⟩) rfl
  rw [List.flatMap_append, List.flatMap_cons, front, back, List.nil_append, List.append_nil]

/-! ### Children -/

/-- Where the nodes of a tree are told apart by a key, the links of a node lead to its children. -/
theorem Tree.filter_links {C L K κ : Type} [DecidableEq κ] {key : Tree C L K → κ}
    {t p : Tree C L K} (distinct : (t.walk.map key).Nodup) (reached : p ∈ t.walk) :
    t.links.filter (fun link => key link.1 = key p) = p.children.map (p, ·) := by
  induction t using Tree.induction_children with
  | node t ih =>
    rw [walk_eq_cons, List.map_cons, List.map_flatMap] at distinct
    obtain ⟨outside, inner⟩ := List.nodup_cons.mp distinct
    -- The root is told from all nodes below it, and these start all links but those of the root.
    have ofChild : ∀ c ∈ t.children, ∀ q ∈ c.walk, key q ≠ key t := by
      intro c child q inside same
      refine outside (List.mem_flatMap.mpr ⟨c, child, ?_⟩)
      rw [← same]
      exact List.mem_map_of_mem inside
    rw [links_eq_flatMap, List.filter_flatMap]
    rcases mem_walk_iff.mp reached with rfl | ⟨c, child, inside⟩
    · have each : ∀ c ∈ p.children,
          ((p, c) :: c.links).filter (fun link => key link.1 = key p) = [(p, c)] := by
        intro c child
        rw [List.filter_cons_of_pos (by simp)]
        refine congrArg _ (List.filter_eq_nil_iff.mpr fun link inside => ?_)
        have from' := (mem_links_iff.mp (show (link.1, link.2) ∈ c.links from inside)).1
        simpa using ofChild c child link.1 from'
      rw [List.flatMap_congr each, List.map_eq_flatMap]
    · have drop : ∀ d : Tree C L K, ((t, d) :: d.links).filter (fun link => key link.1 = key p) =
          d.links.filter fun link => key link.1 = key p := fun d =>
        List.filter_cons_of_neg (by simpa using (ofChild c child p inside).symm)
      simp only [drop]
      rw [flatMap_eq_of_nodup inner child (List.mem_map_of_mem inside)]
      · exact ih c child ((List.nodup_flatMap.mp inner).1 c child) inside
      · -- The links of the other children start at nodes of their own.
        intro d _ apart
        refine List.filter_eq_nil_iff.mpr fun link held => ?_
        have from' := (mem_links_iff.mp (show (link.1, link.2) ∈ d.links from held)).1
        simpa using fun same : key link.1 = key p =>
          apart (same ▸ List.mem_map_of_mem from')

/-- What lies in a block are its children, in order. -/
theorem filter_blockDrafts {names : DefinedNames} {n m : NumberedBlock} {parent : NodeId}
    (distinct : (parent :: (NumberedBlock.tickets n).map Ticket.id).Nodup) (reached : m ∈ n.walk) :
    (NumberedBlock.drafts names n parent).filter
        (·.parent == some (NumberedBlock.ticket m).id) =
      m.children.map fun c => NumberedBlock.draft names c (NumberedBlock.ticket m).id := by
  obtain ⟨outside, inner⟩ := List.nodup_cons.mp distinct
  have above : parent ≠ (NumberedBlock.ticket m).id := by
    rintro rfl
    exact outside (List.mem_map_of_mem (List.mem_map_of_mem reached))
  rw [NumberedBlock.tickets, List.map_map] at inner
  have links := Tree.filter_links inner reached
  rw [NumberedBlock.drafts, List.filter_cons_of_neg (by simpa using above), List.filter_map]
  have same : ((fun d : Draft => d.parent == some (NumberedBlock.ticket m).id) ∘
      fun link : NumberedBlock × NumberedBlock =>
        NumberedBlock.draft names link.2 (NumberedBlock.ticket link.1).id) =
      fun link => decide ((Ticket.id ∘ NumberedBlock.ticket) link.1 =
        (Ticket.id ∘ NumberedBlock.ticket) m) := by
    funext link
    simp [beq_eq_decide]
  rw [same, links, List.map_map]
  rfl

theorem exists_of_mem_blockDrafts {names : DefinedNames} {n : NumberedBlock} {parent : NodeId}
    {d : Draft} (inside : d ∈ NumberedBlock.drafts names n parent) :
    ∃ m ∈ n.walk, ∃ around, d = NumberedBlock.draft names m around := by
  rcases List.mem_cons.mp inside with rfl | below
  · exact ⟨n, n.mem_walk_self, parent, rfl⟩
  · obtain ⟨⟨p, c⟩, linked, rfl⟩ := List.mem_map.mp below
    obtain ⟨reached, child⟩ := Tree.mem_links_iff.mp linked
    exact ⟨c, Tree.mem_walk_of_mem_children reached child, _, rfl⟩

/-! ### Closing braces -/

/-- The brace that closes a block. -/
def NumberedBlock.closing? : NumberedBlock → Option Lexeme
  | .component _ => none
  | .layout l _ => some l.2.closing
  | .cell k _ => some k.2.closing

theorem back_erase (n : NumberedBlock) :
    Block.back (NumberedBlock.erase n) = (NumberedBlock.closing? n).toList.map Written.own := by
  cases n <;> simp [NumberedBlock.erase, Block.back, NumberedBlock.closing?]

/-- The blocks inside a block stand in it as they are written. -/
theorem written_infix_of_mem_walk {n m : NumberedBlock} (reached : m ∈ n.walk) :
    Block.written (NumberedBlock.erase m) <:+: Block.written (NumberedBlock.erase n) := by
  induction n using Tree.induction_children with
  | node n ih =>
    rcases Tree.mem_walk_iff.mp reached with rfl | ⟨c, child, inside⟩
    · exact List.infix_rfl
    · have part : Block.written (NumberedBlock.erase c) <:+:
          (NumberedBlock.erase n).children.flatMap Block.written := by
        rw [NumberedBlock.erase, Tree.children_map]
        exact infix_flatMap_of_mem (List.mem_map_of_mem child)
      rw [Block.written_eq (NumberedBlock.erase n)]
      exact (ih c child inside).trans (part.trans ⟨_, _, List.append_assoc _ _ _⟩)

theorem closing_mem_lexemes {n m : NumberedBlock} (reached : m ∈ n.walk) {l : Lexeme}
    (closing : NumberedBlock.closing? m = some l) : l ∈ NumberedBlock.lexemes n := by
  have own : l ∈ NumberedBlock.lexemes m := by
    rw [NumberedBlock.lexemes_eq, back_erase, closing]
    simp
  exact ((written_infix_of_mem_walk reached).sublist.filterMap _).subset own

/-- No two blocks inside a block are closed by one brace. -/
theorem eq_of_mem_walk_of_closing {n m m' : NumberedBlock} {l : Lexeme}
    (distinct : (NumberedBlock.lexemes n).Nodup) (reached : m ∈ n.walk) (reached' : m' ∈ n.walk)
    (closing : NumberedBlock.closing? m = some l) (closing' : NumberedBlock.closing? m' = some l) :
    m = m' := by
  induction n using Tree.induction_children with
  | node n ih =>
    rw [NumberedBlock.lexemes_eq] at distinct
    obtain ⟨inner, -, apart⟩ := List.nodup_append.mp (List.nodup_append.mp distinct).2.1
    -- The brace of the block itself stands behind those of all blocks inside it.
    have outside : NumberedBlock.closing? n = some l → ∀ c ∈ n.children, ∀ p ∈ c.walk,
        NumberedBlock.closing? p ≠ some l := by
      intro own c child p inside taken
      refine apart l (List.mem_flatMap.mpr ⟨c, child, closing_mem_lexemes inside taken⟩) l ?_ rfl
      rw [back_erase, own]
      simp
    rcases Tree.mem_walk_iff.mp reached with rfl | ⟨c, child, inside⟩
    · rcases Tree.mem_walk_iff.mp reached' with same | ⟨c, child, inside⟩
      · exact same.symm
      · exact absurd closing' (outside closing c child m' inside)
    · rcases Tree.mem_walk_iff.mp reached' with rfl | ⟨c', child', inside'⟩
      · exact absurd closing (outside closing' c child m inside)
      · obtain rfl : c = c' := eq_of_mem_owned inner child child'
          (closing_mem_lexemes inside closing) (closing_mem_lexemes inside' closing')
        exact ih c child ((List.nodup_flatMap.mp inner).1 c child) inside inside'

/-! ### The blocks of a project -/

namespace NumberedItem

variable {item : NumberedItem} {body m : NumberedBlock}

theorem exists_tickets (held : item.body? = some body) :
    ∃ t, item.tickets = t :: NumberedBlock.tickets body := by
  cases item with
  | settings => contradiction
  | componentDefinition | layoutDefinition | screen =>
    obtain rfl := Option.some.inj held
    exact ⟨_, rfl⟩

theorem mem_tickets_of_body (held : item.body? = some body) (reached : m ∈ body.walk) :
    NumberedBlock.ticket m ∈ item.tickets := by
  obtain ⟨t, tickets⟩ := exists_tickets held
  rw [tickets]
  exact List.mem_cons_of_mem _ (List.mem_map_of_mem reached)

/-- The body of an item stands in it as it is written. -/
theorem written_infix_of_body (held : item.body? = some body) :
    Block.written (NumberedBlock.erase body) <:+: item.erase.written := by
  cases item with
  | settings => contradiction
  | componentDefinition t head body closing =>
    obtain rfl := Option.some.inj held
    rw [erase_block]
    exact ⟨_, _, List.append_assoc _ _ _⟩
  | layoutDefinition t head l closing | screen t head l closing =>
    obtain rfl := Option.some.inj held
    rw [erase_toTree]
    exact ⟨_, _, List.append_assoc _ _ _⟩

end NumberedItem

namespace ProjectBlock

/-- The numbered blocks of a project, item by item. -/
def blocks (project : ProjectBlock) : List NumberedBlock :=
  project.numbered.flatMap fun item => item.body?.elim [] Tree.walk

variable {project : ProjectBlock} {m m' : NumberedBlock}

theorem mem_blocks : m ∈ project.blocks ↔
    ∃ item ∈ project.numbered, ∃ body, item.body? = some body ∧ m ∈ body.walk := by
  simp only [blocks, List.mem_flatMap]
  refine exists_congr fun item => and_congr_right fun _ => ?_
  cases item.body? <;> simp

/-- Blocks are told apart by their ids. -/
theorem eq_of_id (inside : m ∈ project.blocks) (inside' : m' ∈ project.blocks)
    (same : (NumberedBlock.ticket m).id = (NumberedBlock.ticket m').id) : m = m' := by
  obtain ⟨item, listed, body, held, reached⟩ := mem_blocks.mp inside
  obtain ⟨item', listed', body', held', reached'⟩ := mem_blocks.mp inside'
  -- The ticket tells the item, and inside the item it tells the block.
  have tickets : NumberedBlock.ticket m = NumberedBlock.ticket m' :=
    Ticket.eq_of_id same (project.plain_body listed held _ (List.mem_map_of_mem reached))
  obtain rfl : item = item' := by
    refine project.eq_of_mem_tickets listed listed'
      (NumberedItem.mem_tickets_of_body held reached) ?_
    rw [tickets]
    exact NumberedItem.mem_tickets_of_body held' reached'
  obtain rfl := Option.some.inj (held.symm.trans held')
  obtain ⟨t, own⟩ := NumberedItem.exists_tickets held
  have distinct := (List.nodup_cons.mp (nodup_ids_of_body listed held own)).2
  rw [NumberedBlock.tickets] at distinct
  exact List.inj_on_of_nodup_map (List.Nodup.of_map _ distinct) reached reached' tickets

/-- Blocks are told apart by the braces that close them, if no token stands twice. -/
theorem eq_of_closing (distinct : (owned project.inWrittenOrder).Nodup)
    (inside : m ∈ project.blocks) (inside' : m' ∈ project.blocks) {l : Lexeme}
    (closing : NumberedBlock.closing? m = some l)
    (closing' : NumberedBlock.closing? m' = some l) : m = m' := by
  obtain ⟨item, listed, body, held, reached⟩ := mem_blocks.mp inside
  obtain ⟨item', listed', body', held', reached'⟩ := mem_blocks.mp inside'
  rw [owned_inWrittenOrder] at distinct
  have inItems := (List.nodup_append.mp (List.nodup_append.mp distinct).2.1).1
  have part : ∀ {i : NumberedItem} {b : NumberedBlock}, i.body? = some b →
      (NumberedBlock.lexemes b).Sublist i.lexemes := fun holds =>
    (NumberedItem.written_infix_of_body holds).sublist.filterMap _
  obtain rfl : item = item' := eq_of_mem_owned inItems listed listed'
    ((part held).subset (closing_mem_lexemes reached closing))
    ((part held').subset (closing_mem_lexemes reached' closing'))
  obtain rfl := Option.some.inj (held.symm.trans held')
  have inBody := ((List.nodup_flatMap.mp inItems).1 item listed).sublist (part held)
  exact eq_of_mem_walk_of_closing inBody reached reached' closing closing'

/-- The draft of a layout or cell is that of a block. -/
theorem exists_block_of_draft {d : Draft} (drafted : d ∈ project.drafts)
    (container : d.subject.kind = .layout ∨ d.subject.kind = .cell) :
    ∃ m ∈ project.blocks, ∃ parent closing,
      d = NumberedBlock.draft project.names m parent ∧
        NumberedBlock.closing? m = some closing := by
  have closes : ∀ {n : NumberedBlock} {parent : NodeId},
      (NumberedBlock.draft project.names n parent).subject.kind = .layout ∨
        (NumberedBlock.draft project.names n parent).subject.kind = .cell →
      ∃ closing, NumberedBlock.closing? n = some closing := by
    intro n parent kind
    cases n with
    | component c => rcases kind with kind | kind <;> contradiction
    | layout l trees => exact ⟨_, rfl⟩
    | cell k trees => exact ⟨_, rfl⟩
  rcases List.mem_cons.mp drafted with rfl | drafted
  · rcases container with kind | kind <;> contradiction
  rcases mem_itemDrafts drafted with ⟨first, -, rfl⟩ | ⟨item, listed, own⟩
  · have settings := first.head.kind.isSettings_kind
    rcases container with kind | kind
    all_goals
      change first.head.kind.subject.kind = _ at kind
      rw [kind] at settings
      contradiction
  · obtain ⟨t, body, held, -, ⟨first, -⟩ | below⟩ := NumberedItem.mem_drafts own
    · exfalso
      rcases container with kind | kind
      all_goals
        rw [kind] at first
        cases item <;> cases first
    · obtain ⟨m, reached, parent, rfl⟩ := exists_of_mem_blockDrafts below
      obtain ⟨closing, closed⟩ := closes container
      exact ⟨m, mem_blocks.mpr ⟨item, listed, body, held, reached⟩, parent, closing, rfl, closed⟩

/-- What lies in a block of a project are its children, in order. -/
theorem filter_drafts (inside : m ∈ project.blocks) :
    project.drafts.filter (·.parent == some (NumberedBlock.ticket m).id) =
      m.children.map fun c =>
        NumberedBlock.draft project.names c (NumberedBlock.ticket m).id := by
  obtain ⟨item, listed, body, held, reached⟩ := mem_blocks.mp inside
  have outside : NodeKind.project.name ≠ (NumberedBlock.ticket m).id :=
    ((NumberedBlock.ticket m).id_ne_name rfl).symm
  have plain := project.plain_body listed held _ (List.mem_map_of_mem reached)
  rw [drafts, List.filter_cons_of_neg (by simp [draft]),
    filter_itemDrafts (fun first written => by simpa [settingsDraft] using outside),
    flatMap_eq_of_nodup project.nodup_tickets listed
      (NumberedItem.mem_tickets_of_body held reached)]
  · obtain ⟨t, d, -, -, tickets, drafted, parent, -⟩ :=
      NumberedItem.exists_draft project.names NodeKind.project.name held
    rw [drafted, List.filter_cons_of_neg (by simpa [parent] using outside)]
    exact filter_blockDrafts (nodup_ids_of_body listed held tickets) reached
  · -- In another item a part lies in the item or in a block with another ticket.
    intro other _ free
    refine List.filter_eq_nil_iff.mpr fun d own same => ?_
    have same := eq_of_beq same
    rcases parent_of_mem_drafts own with top | ⟨t, taken, around⟩
    · exact outside (Option.some.inj (top.symm.trans same))
    · have ids := Option.some.inj (same.symm.trans around)
      exact free (Ticket.eq_of_id ids plain ▸ taken)

/-- A block stands in the project as it is written. -/
theorem written_infix_of_mem_blocks (inside : m ∈ project.blocks) :
    Block.written (NumberedBlock.erase m) <:+: project.inWrittenOrder := by
  obtain ⟨item, listed, body, held, reached⟩ := mem_blocks.mp inside
  have inItem := (written_infix_of_mem_walk reached).trans
    (NumberedItem.written_infix_of_body held)
  have inItems : item.erase.written <:+: project.items.flatMap Item.written :=
    infix_flatMap_of_mem (erase_mem_items listed)
  exact inItem.trans (inItems.trans ⟨_, _, List.append_assoc _ _ _⟩)

end ProjectBlock

/-! ### Ids of parts -/

theorem walk_element (n : NumberedBlock) :
    (NumberedBlock.element n).walk = n.walk.map NumberedBlock.element := by
  rw [Tree.walk_eq_cons_links, NumberedBlock.element, Tree.links_map, Tree.walk_eq_cons_links n,
    List.map_cons, List.map_map, List.map_map]
  rfl

/-- The parts that an item becomes. -/
def NumberedItem.parts (item : NumberedItem) : List Node :=
  item.definition?.toList.flatMap Definition.walk ++ item.screen?.toList.flatMap Screen.walk

/-- Behind the part that an item itself becomes come those of its body. -/
theorem NumberedItem.parts_of_body {item : NumberedItem} {body : NumberedBlock}
    (held : item.body? = some body) :
    ∃ t first, item.tickets = t :: NumberedBlock.tickets body ∧ Node.id first = some t.id ∧
      item.parts = first :: (NumberedBlock.element body).walk.map Node.element := by
  cases item with
  | settings => contradiction
  | componentDefinition t head body closing =>
    obtain rfl := Option.some.inj held
    refine ⟨t, .definition (.component ⟨unquote head.name.text, body.lowered, some t.id⟩), rfl,
      rfl, ?_⟩
    rw [← body.toTree_lowered]
    simp [parts, definition?, screen?, Definition.walk, Definition.body]
  | layoutDefinition t head l closing =>
    obtain rfl := Option.some.inj held
    refine ⟨t, .definition (.layout ⟨unquote head.name.text, NumberedLayout.lowered l,
      some t.id⟩), rfl, rfl, ?_⟩
    rw [element_toTree]
    simp [parts, definition?, screen?, Definition.walk, Definition.body]
  | screen t head l closing =>
    obtain rfl := Option.some.inj held
    refine ⟨t, .screen ⟨head.name.text, propertyValues (paramProperties head.params),
      NumberedLayout.lowered l, some t.id⟩, rfl, rfl, ?_⟩
    rw [element_toTree]
    simp [parts, definition?, screen?, Screen.walk]

theorem NumberedItem.map_id_parts (item : NumberedItem) :
    item.parts.map Node.id = item.tickets.map fun t => some t.id := by
  cases held : item.body? with
  | none => cases item <;> first | rfl | contradiction
  | some body =>
    obtain ⟨t, first, tickets, id, parts⟩ := NumberedItem.parts_of_body held
    rw [parts, tickets, walk_element, NumberedBlock.tickets, List.map_cons, List.map_cons, id,
      List.map_map, List.map_map, List.map_map]
    exact congrArg _ (List.map_congr_left fun m _ => id_element m)

namespace ProjectBlock

variable (project : ProjectBlock)

/-- The parts of a project are those of its items, up to their order. -/
theorem perm_parts : project.lowered.walk.Perm
    (.project project.lowered :: project.numbered.flatMap NumberedItem.parts) := by
  refine .cons _ ?_
  simp only [lowered, List.filterMap_eq_flatMap_toList, List.flatMap_assoc]
  exact List.flatMap_append_perm _ _ _

/-- The parts of a project bear the ids of its tickets. -/
theorem perm_ids : (project.lowered.walk.map Node.id).Perm
    (some NodeKind.project.name :: project.tickets.map fun t => some t.id) := by
  have ids : (project.numbered.flatMap NumberedItem.parts).map Node.id =
      project.tickets.map fun t => some t.id := by
    rw [tickets, List.map_flatMap, List.map_flatMap]
    exact List.flatMap_congr fun item _ => item.map_id_parts
  rw [← ids]
  exact project.perm_parts.map Node.id

variable {project} {m : NumberedBlock}

theorem element_mem_walk (inside : m ∈ project.blocks) :
    .element (NumberedBlock.element m) ∈ project.lowered.walk := by
  obtain ⟨item, listed, body, held, reached⟩ := mem_blocks.mp inside
  obtain ⟨t, first, -, -, parts⟩ := NumberedItem.parts_of_body held
  have own : .element (NumberedBlock.element m) ∈ item.parts := by
    rw [parts, walk_element]
    exact List.mem_cons_of_mem _ (List.mem_map_of_mem (List.mem_map_of_mem reached))
  exact project.perm_parts.mem_iff.mpr
    (List.mem_cons_of_mem _ (List.mem_flatMap.mpr ⟨item, listed, own⟩))

/-- Only one part of a project bears the id of a ticket that is not of a definition. -/
theorem count_ticket {t : Ticket} (taken : t ∈ project.tickets)
    (plain : t.family.isDefinition = false) :
    (project.lowered.walk.map Node.id).count (some t.id) = 1 := by
  have other : some NodeKind.project.name ≠ some t.id := fun same =>
    t.id_ne_name rfl (Option.some.inj same).symm
  -- Any ticket with that id is the same one, which is handed out once.
  have once : (project.tickets.map fun u => some u.id).count (some t.id) =
      project.tickets.count t := by
    rw [List.count, List.count, List.countP_map]
    refine List.countP_congr fun u _ => ?_
    simp only [Function.comp_apply, beq_iff_eq, Option.some.injEq]
    exact ⟨fun ids => (Ticket.eq_of_id ids.symm plain).symm, congrArg Ticket.id⟩
  rw [project.perm_ids.count_eq, List.count_cons_of_ne other, once]
  exact List.count_eq_one_of_mem project.nodup_tickets taken

/-- Only one part of a project bears the id of a block. -/
theorem count_id (inside : m ∈ project.blocks) :
    (project.lowered.walk.map Node.id).count (some (NumberedBlock.ticket m).id) = 1 := by
  obtain ⟨item, listed, body, held, reached⟩ := mem_blocks.mp inside
  apply count_ticket
  · exact List.mem_flatMap.mpr ⟨item, listed, NumberedItem.mem_tickets_of_body held reached⟩
  · exact project.plain_body listed held _ (List.mem_map_of_mem reached)

end ProjectBlock

end Wireframe
