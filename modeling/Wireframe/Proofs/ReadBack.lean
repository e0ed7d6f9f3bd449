import Mathlib.Data.List.Forall2
import Mathlib.Data.List.Nodup
import Wireframe.Block

/-!
# Reading blocks back

A project gives its tokens back: every block writes the tokens that it holds, with the marks between
properties put back in. In written order that is a walk over the blocks. It can also be done without
that order. If all that is kept of the children of a block are the components, the layouts and the
cells, each kind on its own, then merging them by where they start restores the order, because the
tokens of a text start one after the other.

## Main definitions

* `Written` — a token as it is given back.
* `ProjectBlock.inWrittenOrder` — the tokens of a project in written order.
* `regrouped` — items that were kept by kind, sorted by where they start.
* `Part`, `merged` — parts of a block that were kept by kind, merged by where they start.
* `ProjectBlock.readBack` — the tokens of a project, with all parts merged by where they start.

## Main results

* `regrouped_eq`, `merged_eq` — sorting restores the written order.
* `ProjectBlock.readBack_eq_inWrittenOrder` — both ways to give the tokens back agree.
-/

namespace Wireframe

/-- A token as it is given back: one that a block holds, or a mark that it leaves out. -/
inductive Written where
  | own (lexeme : Lexeme)
  | mark (mark : Mark)
  deriving DecidableEq, Repr

namespace Written

/-- The token that is given back. -/
def token : Written → Token
  | .own lexeme => lexeme.token
  | .mark sign => .mark sign

/-- Whether a token of a text is given back: a token that a block holds is the very same one. -/
def Fits : Written → Lexeme → Prop
  | .own held, lexeme => held = lexeme
  | .mark sign, lexeme => lexeme.token = .mark sign

/-- Where a token that a block holds starts. -/
def start? : Written → Option Nat
  | .own lexeme => some lexeme.span.start
  | .mark _ => none

end Written

theorem Written.Fits.token_eq {w : Written} {l : Lexeme} (fits : w.Fits l) : w.token = l.token := by
  cases w with
  | own held => exact congrArg Lexeme.token fits
  | mark sign => exact fits.symm

/-! ### In written order -/

/-- A property, with its colon. -/
def WrittenProperty.written (p : WrittenProperty) : List Written :=
  [.own p.name, .mark .colon, .own p.value]

/-- Properties with a comma between any two of them. -/
def separated : List WrittenProperty → List Written
  | [] => []
  | p :: others => p.written ++ others.flatMap fun q => .mark .comma :: q.written

/-- Parameters, with their commas. -/
def ParamList.written (params : ParamList) : List Written :=
  .own params.opening :: (separated params.properties ++ [.own params.closing])

/-- Parameters, if there are any. -/
def writtenParams (params : Option ParamList) : List Written :=
  params.elim [] ParamList.written

/-- A component. -/
def ComponentBlock.written (c : ComponentBlock) : List Written :=
  .own c.keyword :: .own c.kind :: c.properties.flatMap WrittenProperty.written

/-- What opens a layout. -/
def LayoutHead.written (head : LayoutHead) : List Written :=
  .own head.keyword :: .own head.kind :: (writtenParams head.params ++ [.own head.opening])

/-- What opens a cell. -/
def CellHead.written (head : CellHead) : List Written :=
  .own head.keyword :: (head.properties.flatMap WrittenProperty.written ++ [.own head.opening])

/-- What opens a screen. -/
def ScreenHead.written (head : ScreenHead) : List Written :=
  .own head.keyword :: .own head.name :: (writtenParams head.params ++ [.own head.opening])

/-- What opens a definition. -/
def DefinitionHead.written (head : DefinitionHead) : List Written :=
  [.own head.define, .own head.kind, .own head.name, .own head.opening]

/-- What opens a block of settings. -/
def SettingsHead.written (head : SettingsHead) : List Written :=
  [.own head.keyword, .own head.opening]

/-- What opens a project. -/
def ProjectHead.written (head : ProjectHead) : List Written :=
  [.own head.keyword, .own head.name, .own head.opening]

/-- A component, layout or cell with the blocks inside it. -/
def Block.written : Block → List Written :=
  Tree.fold ComponentBlock.written
    (fun l inside => l.head.written ++ (inside.flatten ++ [.own l.closing]))
    (fun k inside => k.head.written ++ (inside.flatten ++ [.own k.closing]))

/-- The one layout or component that a component definition holds. -/
def DefinitionBody.block : DefinitionBody → Block
  | .layout l => l.toTree
  | .component c => .component c

/-- A block of settings. -/
def SettingsBlock.written (block : SettingsBlock) : List Written :=
  block.head.written ++
    (block.properties.flatMap WrittenProperty.written ++ [.own block.closing])

/-- An item, given how its body is written. -/
def Item.writtenWith (body : Block → List Written) : Item → List Written
  | .settings block => block.written
  | .definition (.component head held closing) =>
    head.written ++ (body held.block ++ [.own closing])
  | .definition (.layout head layout closing) =>
    head.written ++ (body layout.toTree ++ [.own closing])
  | .screen block => block.head.written ++ (body block.layout.toTree ++ [.own block.closing])

/-- An item in written order. -/
def Item.written : Item → List Written :=
  Item.writtenWith Block.written

/-- A project in written order. -/
def ProjectBlock.inWrittenOrder (project : ProjectBlock) : List Written :=
  project.head.written ++ (project.items.flatMap Item.written ++ [.own project.closing])

@[simp]
theorem Block.written_component (c : ComponentBlock) :
    Block.written (.component c) = c.written :=
  Tree.fold_component _ _ _ c

@[simp]
theorem Block.written_layout (l : Closed LayoutHead) (blocks : List Block) :
    Block.written (.layout l blocks) =
      l.head.written ++ (blocks.flatMap Block.written ++ [.own l.closing]) := by
  rw [Block.written, Tree.fold_layout, List.flatMap_def]

@[simp]
theorem Block.written_cell (k : Closed CellHead) (blocks : List Block) :
    Block.written (.cell k blocks) =
      k.head.written ++ (blocks.flatMap Block.written ++ [.own k.closing]) := by
  rw [Block.written, Tree.fold_cell, List.flatMap_def]

/-! ### Merged by where they start -/

/-- The kinds of part that a block keeps apart. -/
inductive PartKind where
  | component
  | layout
  | cell
  | settings (kind : SettingsKind)
  | componentDefinition
  | layoutDefinition
  | screen
  deriving DecidableEq, Repr

/-- Every kind of part. -/
def PartKind.all : List PartKind :=
  [.component, .layout, .cell, .settings .style, .settings .mocks, .settings .colors,
    .componentDefinition, .layoutDefinition, .screen]

section Regrouped

variable {α : Type} (kind : α → PartKind) (start : α → Nat)

/-- Items as they are kept, one kind after the other. -/
def keptByKind (items : List α) : List α :=
  PartKind.all.flatMap fun k => items.filter (kind · = k)

/-- Items that were kept by kind, sorted by where they start. -/
def regrouped (items : List α) : List α :=
  (keptByKind kind items).mergeSort (start · ≤ start ·)

variable {kind start}

/-- Items sorted into some kinds are still all there. -/
theorem flatMap_filter_kind_perm {kinds : List PartKind} (distinct : kinds.Nodup)
    {items : List α} (inside : ∀ item ∈ items, kind item ∈ kinds) :
    (kinds.flatMap fun k => items.filter (kind · = k)).Perm items := by
  induction kinds generalizing items with
  | nil =>
    have none : items = [] :=
      List.eq_nil_iff_forall_not_mem.mpr fun item found => List.not_mem_nil (inside item found)
    rw [none]
    exact .refl []
  | cons first kinds ih =>
    obtain ⟨fresh, distinct⟩ := List.nodup_cons.mp distinct
    -- The other kinds are looked for among all items, but none of those left out is of such a kind.
    have others : (kinds.flatMap fun k => items.filter (kind · = k)) =
        kinds.flatMap fun k =>
          (items.filter fun item => !decide (kind item = first)).filter (kind · = k) := by
      refine List.flatMap_congr fun k found => ?_
      rw [List.filter_filter]
      refine List.filter_congr fun item _ => ?_
      by_cases same : kind item = k
      · have other : k ≠ first := fun equal => fresh (equal ▸ found)
        simp [same, other]
      · simp [same]
    have remaining : ∀ item ∈ items.filter fun item => !decide (kind item = first),
        kind item ∈ kinds := by
      intro item found
      obtain ⟨found, other⟩ := List.mem_filter.mp found
      exact (List.mem_cons.mp (inside item found)).resolve_left (by simpa using other)
    rw [List.flatMap_cons, others]
    exact ((ih distinct remaining).append_left _).trans (List.filter_append_perm _ items)

/-- Keeping items by kind loses none of them. -/
theorem keptByKind_perm (items : List α) : (keptByKind kind items).Perm items := by
  refine flatMap_filter_kind_perm (by decide) fun item _ => ?_
  generalize kind item = k
  cases k with
  | settings kind => cases kind <;> simp [PartKind.all]
  | _ => simp [PartKind.all]

/-- Sorting restores the order of items that start one after the other. -/
theorem regrouped_eq {items : List α} (sorted : items.Pairwise (start · < start ·)) :
    regrouped kind start items = items := by
  -- Both are the same items in ascending order, and such an order is unique.
  have perm : (regrouped kind start items).Perm items :=
    (List.mergeSort_perm _ _).trans (keptByKind_perm items)
  have weakly : items.Pairwise (start · ≤ start ·) := sorted.imp Nat.le_of_lt
  have ordered : (regrouped kind start items).Pairwise (start · ≤ start ·) := by
    have general : (regrouped kind start items).Pairwise fun a b =>
        decide (start a ≤ start b) = true := by
      refine List.pairwise_mergeSort (fun a b c first second => ?_) (fun a b => ?_) _
      · exact decide_eq_true (Nat.le_trans (of_decide_eq_true first) (of_decide_eq_true second))
      · simpa using Nat.le_total (start a) (start b)
    exact general.imp of_decide_eq_true
  have distinct : (items.map start).Nodup := List.pairwise_map.mpr (sorted.imp Nat.ne_of_lt)
  refine List.Perm.eq_of_pairwise (fun a b left right below above => ?_) ordered weakly perm
  -- Two items that start at one place are one item.
  exact List.inj_on_of_nodup_map distinct (perm.mem_iff.mp left) right
    (Nat.le_antisymm below above)

end Regrouped

/-- A part of a block: its kind, the offset at which it starts, and its tokens. -/
structure Part where
  kind : PartKind
  start : Nat
  tokens : List Written
  deriving DecidableEq, Repr

/-- Parts as they are kept, one kind after the other. -/
def byKind (parts : List Part) : List Part :=
  PartKind.all.flatMap fun kind => parts.filter (·.kind = kind)

/-- Parts that were kept by kind, merged by where they start. -/
def merged (parts : List Part) : List Part :=
  (byKind parts).mergeSort (·.start ≤ ·.start)

/-- The tokens of parts that were kept by kind. -/
def mergedTokens (parts : List Part) : List Written :=
  (merged parts).flatMap Part.tokens

/-- A block as a part of the one around it. -/
def blockPart : Block → Part :=
  Tree.fold (fun c => ⟨.component, c.keyword.span.start, c.written⟩)
    (fun l inside => ⟨.layout, l.head.keyword.span.start,
      l.head.written ++ (mergedTokens inside ++ [.own l.closing])⟩)
    (fun k inside => ⟨.cell, k.head.keyword.span.start,
      k.head.written ++ (mergedTokens inside ++ [.own k.closing])⟩)

/-- The kind of an item. -/
def Item.kind : Item → PartKind
  | .settings block => .settings block.head.kind
  | .definition (.component _ _ _) => .componentDefinition
  | .definition (.layout _ _ _) => .layoutDefinition
  | .screen _ => .screen

/-- The token that opens an item. -/
def Item.opening : Item → Lexeme
  | .settings block => block.head.keyword
  | .definition (.component head _ _) | .definition (.layout head _ _) => head.define
  | .screen block => block.head.keyword

/-- An item as a part of its project. -/
def itemPart (item : Item) : Part :=
  ⟨item.kind, item.opening.span.start, item.writtenWith fun b => (blockPart b).tokens⟩

/-- The tokens of a project, with all parts merged by where they start. -/
def ProjectBlock.readBack (project : ProjectBlock) : List Written :=
  project.head.written ++ (mergedTokens (project.items.map itemPart) ++ [.own project.closing])

/-- Merging restores the order of parts that start one after the other. -/
theorem merged_eq {parts : List Part} (sorted : parts.Pairwise (·.start < ·.start)) :
    merged parts = parts :=
  regrouped_eq sorted

/-! ### The two ways agree -/

/-- The tokens that blocks hold stand one after the other. -/
def InOrder (ws : List Written) : Prop :=
  (ws.filterMap Written.start?).Pairwise (· < ·)

theorem InOrder.left {xs ys : List Written} (ordered : InOrder (xs ++ ys)) : InOrder xs := by
  rw [InOrder, List.filterMap_append] at ordered
  exact (List.pairwise_append.mp ordered).1

theorem InOrder.right {xs ys : List Written} (ordered : InOrder (xs ++ ys)) : InOrder ys := by
  rw [InOrder, List.filterMap_append] at ordered
  exact (List.pairwise_append.mp ordered).2.1

/-- A part of a row in order is in order. -/
theorem InOrder.of_mem {α : Type} {f : α → List Written} {l : List α}
    (ordered : InOrder (l.flatMap f)) {a : α} (inside : a ∈ l) : InOrder (f a) := by
  rw [InOrder, List.filterMap_flatMap] at ordered
  exact (List.pairwise_flatMap.mp ordered).1 a inside

/-- A part starts with its first token. -/
def Part.Leads (part : Part) : Prop :=
  ∃ rest, part.tokens.filterMap Written.start? = part.start :: rest

theorem Part.Leads.of_own {part : Part} (lexeme : Lexeme) {others : List Written}
    (tokens : part.tokens = .own lexeme :: others) (start : part.start = lexeme.span.start) :
    part.Leads := by
  refine ⟨others.filterMap Written.start?, ?_⟩
  rw [tokens, start]
  rfl

/-- Parts of a row in order start one after the other. -/
theorem pairwise_start_of_inOrder {parts : List Part} (leads : ∀ part ∈ parts, part.Leads)
    (ordered : InOrder (parts.flatMap Part.tokens)) : parts.Pairwise (·.start < ·.start) := by
  rw [InOrder, List.filterMap_flatMap] at ordered
  refine (List.pairwise_flatMap.mp ordered).2.imp_of_mem fun {a b} left right before => ?_
  obtain ⟨restA, firstA⟩ := leads a left
  obtain ⟨restB, firstB⟩ := leads b right
  refine before a.start ?_ b.start ?_
  · rw [firstA]
    exact List.mem_cons_self
  · rw [firstB]
    exact List.mem_cons_self

theorem mergedTokens_eq {parts : List Part} (leads : ∀ part ∈ parts, part.Leads)
    (ordered : InOrder (parts.flatMap Part.tokens)) :
    mergedTokens parts = parts.flatMap Part.tokens := by
  rw [mergedTokens, merged_eq (pairwise_start_of_inOrder leads ordered)]

/-- A block as a part of the one around it, in written order. -/
def writtenPart (b : Block) : Part :=
  { blockPart b with tokens := Block.written b }

theorem blockPart_layout (l : Closed LayoutHead) (blocks : List Block) :
    blockPart (.layout l blocks) = ⟨.layout, l.head.keyword.span.start,
      l.head.written ++ (mergedTokens (blocks.map blockPart) ++ [.own l.closing])⟩ :=
  Tree.fold_layout _ _ _ l blocks

theorem blockPart_cell (k : Closed CellHead) (blocks : List Block) :
    blockPart (.cell k blocks) = ⟨.cell, k.head.keyword.span.start,
      k.head.written ++ (mergedTokens (blocks.map blockPart) ++ [.own k.closing])⟩ :=
  Tree.fold_cell _ _ _ k blocks

theorem writtenPart_leads (b : Block) : (writtenPart b).Leads := by
  cases b with
  | component c => exact .of_own c.keyword (Block.written_component c) rfl
  | layout l blocks => exact .of_own l.head.keyword (Block.written_layout l blocks) rfl
  | cell k blocks => exact .of_own k.head.keyword (Block.written_cell k blocks) rfl

theorem leads_map_writtenPart (blocks : List Block) :
    ∀ part ∈ blocks.map writtenPart, part.Leads := by
  intro part inside
  obtain ⟨b, -, rfl⟩ := List.mem_map.mp inside
  exact writtenPart_leads b

theorem tokens_map_writtenPart (blocks : List Block) :
    (blocks.map writtenPart).flatMap Part.tokens = blocks.flatMap Block.written := by
  rw [List.flatMap_map]
  rfl

/-- Blocks in order give back the same tokens merged as written, if each of them does. -/
theorem mergedTokens_map_blockPart {blocks : List Block}
    (agree : ∀ b ∈ blocks, InOrder (Block.written b) → blockPart b = writtenPart b)
    (ordered : InOrder (blocks.flatMap Block.written)) :
    mergedTokens (blocks.map blockPart) = blocks.flatMap Block.written := by
  have same : blocks.map blockPart = blocks.map writtenPart :=
    List.map_congr_left fun b inside => agree b inside (ordered.of_mem inside)
  rw [← tokens_map_writtenPart] at ordered ⊢
  rw [same, mergedTokens_eq (leads_map_writtenPart blocks) ordered]

/-- A block in order is the same part either way. -/
theorem blockPart_eq_writtenPart (b : Block) (ordered : InOrder (Block.written b)) :
    blockPart b = writtenPart b := by
  induction b using Tree.induction with
  | component c => rfl
  | layout l blocks ih =>
    rw [Block.written_layout] at ordered
    rw [writtenPart, blockPart_layout, Block.written_layout,
      mergedTokens_map_blockPart ih ordered.right.left]
  | cell k blocks ih =>
    rw [Block.written_cell] at ordered
    rw [writtenPart, blockPart_cell, Block.written_cell,
      mergedTokens_map_blockPart ih ordered.right.left]

/-- An item in order gives back the same tokens either way. -/
theorem itemPart_tokens {item : Item} (ordered : InOrder item.written) :
    (itemPart item).tokens = item.written := by
  have same : ∀ b : Block, InOrder (Block.written b) → (blockPart b).tokens = Block.written b := by
    intro b inOrder
    rw [blockPart_eq_writtenPart b inOrder]
    rfl
  -- An item but for settings is written around the one block that is its body.
  match item, ordered with
  | .settings block, _ => rfl
  | .definition (.component head held closing), ordered =>
    simp only [itemPart, Item.written, Item.writtenWith] at ordered ⊢
    rw [same _ ordered.right.left]
  | .definition (.layout head layout closing), ordered =>
    simp only [itemPart, Item.written, Item.writtenWith] at ordered ⊢
    rw [same _ ordered.right.left]
  | .screen block, ordered =>
    simp only [itemPart, Item.written, Item.writtenWith] at ordered ⊢
    rw [same _ ordered.right.left]

theorem itemPart_leads {item : Item} (ordered : InOrder item.written) : (itemPart item).Leads := by
  rw [Part.Leads, itemPart_tokens ordered]
  match item with
  | .settings _ | .definition (.component _ _ _) | .definition (.layout _ _ _) | .screen _ =>
    exact ⟨_, rfl⟩

section Items

variable {items : List Item} (ordered : InOrder (items.flatMap Item.written))

include ordered

theorem leads_map_itemPart : ∀ part ∈ items.map itemPart, part.Leads := by
  intro part inside
  obtain ⟨item, found, rfl⟩ := List.mem_map.mp inside
  exact itemPart_leads (ordered.of_mem found)

theorem tokens_map_itemPart :
    (items.map itemPart).flatMap Part.tokens = items.flatMap Item.written := by
  rw [List.flatMap_map]
  exact List.flatMap_congr fun item inside => itemPart_tokens (ordered.of_mem inside)

end Items

/-- A project in order gives back the same tokens either way. -/
theorem ProjectBlock.readBack_eq_inWrittenOrder {project : ProjectBlock}
    (ordered : InOrder project.inWrittenOrder) : project.readBack = project.inWrittenOrder := by
  have inOrder : InOrder (project.items.flatMap Item.written) := ordered.right.left
  have tokens := tokens_map_itemPart inOrder
  rw [readBack, inWrittenOrder,
    mergedTokens_eq (leads_map_itemPart inOrder) (by rwa [tokens]), tokens]

/-! ### Against the text -/

/-- Of two rows that are related one to one a part of the first is related to a part of the
second. -/
theorem exists_append_of_forall₂ {α β : Type} {R : α → β → Prop} {xs ys : List α} {zs : List β}
    (related : List.Forall₂ R (xs ++ ys) zs) :
    ∃ before after, zs = before ++ after ∧ List.Forall₂ R xs before ∧
      List.Forall₂ R ys after := by
  induction xs generalizing zs with
  | nil => exact ⟨[], zs, rfl, .nil, related⟩
  | cons x xs ih =>
    obtain ⟨z, others, first, rest, rfl⟩ := List.forall₂_cons_left_iff.mp related
    obtain ⟨before, after, rfl, left, right⟩ := ih rest
    exact ⟨z :: before, after, rfl, .cons first left, right⟩

section Fits

variable {ws : List Written} {ls : List Lexeme}

/-- Tokens that fit a text are its tokens. -/
theorem map_token_of_fits (fits : List.Forall₂ Written.Fits ws ls) :
    ws.map Written.token = ls.map Lexeme.token := by
  induction fits with
  | nil => rfl
  | cons head _ ih => rw [List.map_cons, List.map_cons, head.token_eq, ih]

theorem sublist_start_of_fits (fits : List.Forall₂ Written.Fits ws ls) :
    (ws.filterMap Written.start?).Sublist (ls.map (·.span.start)) := by
  induction fits with
  | nil => exact .slnil
  | @cons w l ws ls head _ ih =>
    cases w with
    | own held =>
      obtain rfl : held = l := head
      exact ih.cons_cons held.span.start
    | mark sign => exact ih.cons l.span.start

/-- Tokens that fit a text stand in its order. -/
theorem InOrder.of_fits (fits : List.Forall₂ Written.Fits ws ls)
    (starts : ls.Pairwise (·.span.start < ·.span.start)) : InOrder ws := by
  have along : (ls.map (·.span.start)).Pairwise (· < ·) := List.pairwise_map.mpr starts
  exact along.sublist (sublist_start_of_fits fits)

/-- A row that fits what several items give back is made of one row for each of them. -/
theorem exists_rows_of_fits {α : Type} {f : α → List Written} {items : List α}
    {R : α → List Lexeme → Prop}
    (each : ∀ item ∈ items, ∀ {row}, List.Forall₂ Written.Fits (f item) row → R item row)
    (fits : List.Forall₂ Written.Fits (items.flatMap f) ls) :
    ∃ rows : List (List Lexeme), ls = rows.flatten ∧ List.Forall₂ R items rows := by
  induction items generalizing ls with
  | nil => exact ⟨[], List.forall₂_nil_left_iff.mp fits, .nil⟩
  | cons item items ih =>
    obtain ⟨first, others⟩ := List.forall_mem_cons.mp each
    rw [List.flatMap_cons] at fits
    obtain ⟨row, rest, rfl, own, behind⟩ := exists_append_of_forall₂ fits
    obtain ⟨rows, rfl, all⟩ := ih others behind
    exact ⟨row :: rows, rfl, .cons (first own) all⟩

/-- A row that fits a block is made of what opens it, what is inside it and its closing brace. -/
theorem exists_enclosed_of_fits {opening inside : List Written} {closing : Lexeme}
    (fits : List.Forall₂ Written.Fits (opening ++ (inside ++ [.own closing])) ls) :
    ∃ opened held, ls = opened ++ (held ++ [closing]) ∧
      List.Forall₂ Written.Fits opening opened ∧ List.Forall₂ Written.Fits inside held := by
  obtain ⟨opened, rest, rfl, first, others⟩ := exists_append_of_forall₂ fits
  obtain ⟨held, last, rfl, body, brace⟩ := exists_append_of_forall₂ others
  obtain ⟨l, none, own, empty, rfl⟩ := List.forall₂_cons_left_iff.mp brace
  obtain rfl : closing = l := own
  rw [List.forall₂_nil_left_iff.mp empty]
  exact ⟨opened, held, rfl, first, body⟩

end Fits

end Wireframe
