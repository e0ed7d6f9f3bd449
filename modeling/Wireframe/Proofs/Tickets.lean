import Mathlib.Data.List.Nodup
import Mathlib.Data.List.Pairwise
import Wireframe.Proofs.Numbering

/-!
# Ids are told apart

No ticket is handed out twice, and tickets that differ have ids that differ, except that two
definitions may bear one id: a name may end in a dash and a number.

## Main definitions

* `HandsOut` — tickets that are handed out one after the other.
* `NumberedItem.tickets`, `ProjectBlock.tickets` — the tickets of an item and of a project.

## Main results

* `ProjectBlock.nodup_tickets` — a project hands out every ticket once.
* `Ticket.eq_of_id` — ids of anything but definitions are told apart.
* `Ticket.id_ne_name` — no ticket bears the id of a project or of settings.
* `NumberedItem.mem_drafts` — a draft of an item is that of the item itself or one of its body.
* `map_id_drafts`, `parent_of_mem_drafts` — the ids of drafts and of what they lie in.
-/

namespace Wireframe

/-! ### Handing out -/

/-- Tickets that are handed out one after the other, from one state to another. -/
inductive HandsOut : List IdFamily → List Ticket → List IdFamily → Prop
  | nil {used : List IdFamily} : HandsOut used [] used
  | cons {used after : List IdFamily} {family : IdFamily} {ts : List Ticket} :
      HandsOut (family :: used) ts after →
      HandsOut used (⟨family, used.count family⟩ :: ts) after

namespace HandsOut

variable {used middle after : List IdFamily} {ts us : List Ticket}

theorem append (first : HandsOut used ts middle) (second : HandsOut middle us after) :
    HandsOut used (ts ++ us) after := by
  induction first with
  | nil => exact second
  | cons _ ih => exact .cons (ih second)

/-- A ticket counts those of its family that were handed out before. -/
theorem number_eq {t : Ticket} (handsOut : HandsOut used (ts ++ t :: us) after) :
    t.number = used.count t.family + (ts.map Ticket.family).count t.family := by
  induction ts generalizing used with
  | nil =>
    cases handsOut
    rfl
  | cons s ts ih =>
    cases handsOut with
    | cons rest =>
      have counted := ih rest
      simp only [List.map_cons, List.count_cons] at counted ⊢
      omega

theorem count_le (handsOut : HandsOut used ts after) :
    ∀ t ∈ ts, used.count t.family ≤ t.number := by
  intro t inside
  obtain ⟨before, rest, rfl⟩ := List.append_of_mem inside
  rw [handsOut.number_eq]
  exact Nat.le_add_right _ _

/-- No ticket is handed out twice. -/
theorem nodup (handsOut : HandsOut used ts after) : ts.Nodup := by
  induction handsOut with
  | nil => exact .nil
  | @cons used after family ts rest ih =>
    refine List.nodup_cons.mpr ⟨fun again => ?_, ih⟩
    -- A later ticket of the family would count this one as well.
    have counted := rest.count_le _ again
    rw [List.count_cons_self] at counted
    exact Nat.not_succ_le_self _ counted

end HandsOut

/-! ### The tickets of a project -/

/-- The tickets of a block and of all blocks inside it. -/
def NumberedBlock.tickets (n : NumberedBlock) : List Ticket :=
  n.walk.map NumberedBlock.ticket

theorem tickets_eq_cons (n : NumberedBlock) :
    NumberedBlock.tickets n =
      NumberedBlock.ticket n :: n.children.flatMap NumberedBlock.tickets := by
  rw [NumberedBlock.tickets, Tree.walk_eq_cons, List.map_cons, List.map_flatMap]
  rfl

/-- The tickets of an item and of its body. -/
def NumberedItem.tickets : NumberedItem → List Ticket
  | .settings _ => []
  | .componentDefinition t _ body _ => t :: NumberedBlock.tickets body.block
  | .layoutDefinition t _ l _ => t :: NumberedBlock.tickets l.toTree
  | .screen t _ l _ => t :: NumberedBlock.tickets l.toTree

/-- All tickets of a project. -/
def ProjectBlock.tickets (project : ProjectBlock) : List Ticket :=
  project.numbered.flatMap NumberedItem.tickets

theorem handsOut_numberAll {blocks : List Block}
    (each : ∀ b ∈ blocks, ∀ used,
      HandsOut used (NumberedBlock.tickets (number b used).1) (number b used).2)
    (used : List IdFamily) :
    HandsOut used ((numberAll blocks used).1.flatMap NumberedBlock.tickets)
      (numberAll blocks used).2 := by
  induction blocks generalizing used with
  | nil => exact .nil
  | cons b blocks ih =>
    obtain ⟨first, others⟩ := List.forall_mem_cons.mp each
    exact (first used).append (ih others _)

theorem handsOut_number (b : Block) (used : List IdFamily) :
    HandsOut used (NumberedBlock.tickets (number b used).1) (number b used).2 := by
  induction b using Tree.induction generalizing used with
  | component c =>
    rw [tickets_eq_cons]
    exact .cons .nil
  | layout l blocks ih =>
    rw [tickets_eq_cons]
    exact .cons (handsOut_numberAll ih _)
  | cell k blocks ih =>
    rw [tickets_eq_cons]
    exact .cons (handsOut_numberAll ih _)

theorem handsOut_numberLayout (l : LayoutBlock) (used : List IdFamily) :
    HandsOut used (NumberedBlock.tickets (numberLayout l used).1.toTree)
      (numberLayout l used).2 := by
  have numbered := handsOut_number l.toTree used
  rwa [number_toTree] at numbered

theorem handsOut_item (item : Item) (used : List IdFamily) :
    HandsOut used (item.number used).1.tickets (item.number used).2 := by
  match item with
  | .settings block => exact .nil
  | .definition (.component head (.layout l) closing) => exact .cons (handsOut_numberLayout l _)
  | .definition (.component head (.component c) closing) =>
    exact .cons (handsOut_number (.component c) _)
  | .definition (.layout head l closing) => exact .cons (handsOut_numberLayout l _)
  | .screen block => exact .cons (handsOut_numberLayout block.layout _)

theorem handsOut_items (items : List Item) (used : List IdFamily) :
    HandsOut used ((numberItems items used).1.flatMap NumberedItem.tickets)
      (numberItems items used).2 := by
  induction items generalizing used with
  | nil => exact .nil
  | cons item items ih => exact (handsOut_item item used).append (ih _)

/-- A project hands out its tickets one after the other. -/
theorem ProjectBlock.handsOut (project : ProjectBlock) :
    HandsOut [] project.tickets (numberItems project.items []).2 :=
  handsOut_items project.items []

/-- A project hands out every ticket once. -/
theorem ProjectBlock.nodup_tickets (project : ProjectBlock) : project.tickets.Nodup :=
  project.handsOut.nodup

/-! ### Ids -/

/-- Whether the ids of definitions belong to the family. -/
def IdFamily.isDefinition : IdFamily → Bool
  | .definition _ => true
  | _ => false

/-- The family that a block is numbered in. -/
def NumberedBlock.family : NumberedBlock → IdFamily
  | .component c => c.2.family
  | .layout l _ => l.2.head.family
  | .cell _ _ => .cell

/-- A block and all blocks inside it bear tickets of their own families. -/
def NumberedBlock.InFamilies (n : NumberedBlock) : Prop :=
  ∀ m ∈ n.walk, (NumberedBlock.ticket m).family = NumberedBlock.family m

/-- Blocks that bear tickets of their own families do not bear those of definitions. -/
theorem NumberedBlock.InFamilies.plain {n : NumberedBlock} (own : NumberedBlock.InFamilies n) :
    ∀ t ∈ NumberedBlock.tickets n, t.family.isDefinition = false := by
  intro t inside
  obtain ⟨m, walked, rfl⟩ := List.mem_map.mp inside
  rw [own m walked]
  cases m <;> rfl

theorem inFamilies_number (b : Block) (used : List IdFamily) :
    NumberedBlock.InFamilies (number b used).1 := by
  -- Several blocks bear tickets of their families if each of them does, whatever was handed out
  -- before.
  have several : ∀ {blocks : List Block},
      (∀ b ∈ blocks, ∀ used, NumberedBlock.InFamilies (number b used).1) →
      ∀ used, ∀ m ∈ (numberAll blocks used).1.flatMap Tree.walk,
        (NumberedBlock.ticket m).family = NumberedBlock.family m := by
    intro blocks each
    induction blocks with
    | nil => exact fun _ _ inside => absurd inside List.not_mem_nil
    | cons b blocks ih =>
      obtain ⟨first, others⟩ := List.forall_mem_cons.mp each
      intro used m inside
      rcases List.mem_append.mp inside with inside | inside
      · exact first used m inside
      · exact ih others _ m inside
  induction b using Tree.induction generalizing used with
  | component c =>
    rw [NumberedBlock.InFamilies, Tree.walk_eq_cons]
    exact List.forall_mem_cons.mpr ⟨rfl, fun _ inside => absurd inside List.not_mem_nil⟩
  | layout l blocks ih =>
    rw [NumberedBlock.InFamilies, Tree.walk_eq_cons]
    exact List.forall_mem_cons.mpr ⟨rfl, several ih _⟩
  | cell k blocks ih =>
    rw [NumberedBlock.InFamilies, Tree.walk_eq_cons]
    exact List.forall_mem_cons.mpr ⟨rfl, several ih _⟩

theorem inFamilies_numberLayout (l : LayoutBlock) (used : List IdFamily) :
    NumberedBlock.InFamilies (numberLayout l used).1.toTree := by
  have own := inFamilies_number l.toTree used
  rwa [number_toTree] at own

theorem exists_of_mem_numberItems {items : List Item} {used : List IdFamily}
    {item : NumberedItem} (inside : item ∈ (numberItems items used).1) :
    ∃ original ∈ items, ∃ before, item = (original.number before).1 := by
  induction items generalizing used with
  | nil => contradiction
  | cons original items ih =>
    rcases List.mem_cons.mp inside with rfl | later
    · exact ⟨original, List.mem_cons_self, used, rfl⟩
    · obtain ⟨other, held, before, same⟩ := ih later
      exact ⟨other, List.mem_cons_of_mem _ held, before, same⟩

/-- The body of an item. -/
def NumberedItem.body? : NumberedItem → Option NumberedBlock
  | .settings _ => none
  | .componentDefinition _ _ body _ => some body.block
  | .layoutDefinition _ _ l _ | .screen _ _ l _ => some l.toTree

/-- The kind of the entry that an item has for itself. Settings share theirs. -/
def NumberedItem.kind? : NumberedItem → Option NodeKind
  | .settings _ => none
  | .componentDefinition _ _ _ _ => some .componentDefinition
  | .layoutDefinition _ _ _ _ => some .layoutDefinition
  | .screen _ _ _ _ => some .screen

/-- Whether an item is a screen. -/
def NumberedItem.isScreen : NumberedItem → Bool
  | .screen _ _ _ _ => true
  | _ => false

/-- The family that an item is numbered in. Settings are not numbered. -/
def NumberedItem.family? : NumberedItem → Option IdFamily
  | .settings _ => none
  | .componentDefinition _ head _ _ | .layoutDefinition _ head _ _ => some head.family
  | .screen _ _ _ _ => some .screen

/-- An item takes a ticket of its family, and the blocks of its body take those of theirs. -/
theorem ProjectBlock.exists_ticket {project : ProjectBlock} {item : NumberedItem}
    (inside : item ∈ project.numbered) {body : NumberedBlock} (held : item.body? = some body) :
    ∃ t, item.tickets = t :: NumberedBlock.tickets body ∧ item.family? = some t.family ∧
      NumberedBlock.InFamilies body := by
  obtain ⟨original, -, before, rfl⟩ := exists_of_mem_numberItems inside
  match original with
  | .settings _ => contradiction
  | .definition (.component _ (.layout l) _) | .definition (.layout _ l _) =>
    obtain rfl := Option.some.inj held
    exact ⟨_, rfl, rfl, inFamilies_numberLayout l _⟩
  | .definition (.component _ (.component c) _) =>
    obtain rfl := Option.some.inj held
    exact ⟨_, rfl, rfl, inFamilies_number (.component c) _⟩
  | .screen block =>
    obtain rfl := Option.some.inj held
    exact ⟨_, rfl, rfl, inFamilies_numberLayout block.layout _⟩

/-- The blocks of a project do not bear tickets of definitions. -/
theorem ProjectBlock.plain_body {project : ProjectBlock} {item : NumberedItem}
    (inside : item ∈ project.numbered) {body : NumberedBlock} (held : item.body? = some body) :
    ∀ t ∈ NumberedBlock.tickets body, t.family.isDefinition = false := by
  obtain ⟨-, -, -, own⟩ := exists_ticket inside held
  exact own.plain

/-- Neither do its screens. -/
theorem ProjectBlock.plain_screen {project : ProjectBlock} {item : NumberedItem}
    (inside : item ∈ project.numbered) (screen : item.isScreen = true) :
    ∀ t ∈ item.tickets, t.family.isDefinition = false := by
  cases item with
  | settings | componentDefinition | layoutDefinition => contradiction
  | screen u head l closing =>
    have held : (NumberedItem.screen u head l closing).body? = some l.toTree := rfl
    obtain ⟨t, tickets, family, own⟩ := exists_ticket inside held
    rw [tickets, List.forall_mem_cons, ← Option.some.inj family]
    exact ⟨rfl, own.plain⟩

/-- Two entries of a list that own the same are one, if nothing is owned twice. -/
theorem eq_of_mem_owned {α κ : Type} {l : List α} {owns : α → List κ} {a b : α} {k : κ}
    (distinct : (l.flatMap owns).Nodup) (inA : a ∈ l) (inB : b ∈ l) (ownA : k ∈ owns a)
    (ownB : k ∈ owns b) : a = b := by
  have symmetric : Std.Symm (Function.onFun List.Disjoint owns) :=
    ⟨fun _ _ disjoint k own taken => disjoint taken own⟩
  by_contra differ
  exact (List.nodup_flatMap.mp distinct).2.forall inA inB differ ownA ownB

/-- No ticket is taken by two items. -/
theorem ProjectBlock.eq_of_mem_tickets {project : ProjectBlock} {item other : NumberedItem}
    (held : item ∈ project.numbered) (heldOther : other ∈ project.numbered) {t : Ticket}
    (own : t ∈ item.tickets) (ownOther : t ∈ other.tickets) : item = other :=
  eq_of_mem_owned project.nodup_tickets held heldOther own ownOther

/-- What an id begins with. It tells the kinds of family apart. -/
def IdFamily.tag : IdFamily → List Char
  | .screen => ['s', 'c', 'r']
  | .cell => ['c', 'e', 'l']
  | .component _ => ['c', 'o', 'm']
  | .layout _ => ['l', 'a', 'y']
  | .definition _ => ['d', 'e', 'f']

/-- The characters of an id. -/
theorem toList_id (family : IdFamily) (k : Nat) :
    (family.id k).toList = match family, k with
      | .screen, k => "screen-".toList ++ Nat.toDigits 10 k
      | .cell, k => "cell-".toList ++ Nat.toDigits 10 k
      | .component kind, k => "component-".toList ++ (kind.toList ++ '-' :: Nat.toDigits 10 k)
      | .layout kind, k => "layout-".toList ++ (kind.toList ++ '-' :: Nat.toDigits 10 k)
      | .definition name, 0 => "define-".toList ++ name.toList
      | .definition name, k + 1 =>
        "define-".toList ++ (name.toList ++ '-' :: Nat.toDigits 10 (k + 1)) := by
  cases family with
  | definition name => cases k <;> simp [IdFamily.id, ToString.toString]
  | _ => simp [IdFamily.id, ToString.toString]

theorem take_toList_id (family : IdFamily) (k : Nat) :
    (family.id k).toList.take 3 = family.tag := by
  rw [toList_id]
  cases family with
  | definition name => cases k <;> rfl
  | _ => rfl

theorem dash_not_mem_toDigits (k : Nat) : '-' ∉ Nat.toDigits 10 k := by
  intro inside
  have digit := Nat.isDigit_of_mem_toDigits (by decide) (by decide) inside
  contradiction

/-- What stands in front of the last dash and what stands behind it are both determined. -/
theorem eq_of_append_dash {a b d e : List Char} (noDash : '-' ∉ d) (noDash' : '-' ∉ e)
    (same : a ++ '-' :: d = b ++ '-' :: e) : a = b ∧ d = e := by
  have front : ∀ {a b d e : List Char} (m : List Char), '-' ∉ d → b = a ++ m →
      '-' :: d = m ++ '-' :: e → a = b ∧ d = e := by
    intro a b d e m noDash split rest
    cases m with
    | nil =>
      rw [List.append_nil] at split
      exact ⟨split.symm, (List.cons.inj rest).2⟩
    | cons c m =>
      obtain ⟨-, rest⟩ := List.cons.inj rest
      exact absurd (by rw [rest]; simp) noDash
  rcases List.append_eq_append_iff.mp same with ⟨m, split, rest⟩ | ⟨m, split, rest⟩
  · exact front m noDash split rest
  · obtain ⟨left, right⟩ := front m noDash' split rest
    exact ⟨left.symm, right.symm⟩

theorem eq_of_toDigits {j k : Nat} (same : Nat.toDigits 10 j = Nat.toDigits 10 k) : j = k := by
  have values := congrArg (fun digits => Nat.ofDigitChars 10 digits 0) same
  simpa using values

/-- An id tells its family and its number, unless it is that of a definition. -/
theorem IdFamily.eq_of_id {family family' : IdFamily} {j k : Nat}
    (same : family.id j = family'.id k) (plain : family.isDefinition = false) :
    family = family' ∧ j = k := by
  -- What the ids begin with tells the kind of family; behind that stand its name and the number.
  have tags : family.tag = family'.tag := by
    rw [← take_toList_id family j, ← take_toList_id family' k, same]
  have chars := congrArg String.toList same
  rw [toList_id, toList_id] at chars
  cases family with
  | screen =>
    cases family' with
    | screen => exact ⟨rfl, eq_of_toDigits (List.append_cancel_left chars)⟩
    | _ => simp [IdFamily.tag] at tags
  | cell =>
    cases family' with
    | cell => exact ⟨rfl, eq_of_toDigits (List.append_cancel_left chars)⟩
    | _ => simp [IdFamily.tag] at tags
  | component kind =>
    cases family' with
    | component kind' =>
      obtain ⟨kinds, digits⟩ := eq_of_append_dash (dash_not_mem_toDigits j)
        (dash_not_mem_toDigits k) (List.append_cancel_left chars)
      exact ⟨by rw [String.toList_inj.mp kinds], eq_of_toDigits digits⟩
    | _ => simp [IdFamily.tag] at tags
  | layout kind =>
    cases family' with
    | layout kind' =>
      obtain ⟨kinds, digits⟩ := eq_of_append_dash (dash_not_mem_toDigits j)
        (dash_not_mem_toDigits k) (List.append_cancel_left chars)
      exact ⟨by rw [String.toList_inj.mp kinds], eq_of_toDigits digits⟩
    | _ => simp [IdFamily.tag] at tags
  | definition name => contradiction

/-- Ids are told apart, except for those of two definitions. -/
theorem Ticket.eq_of_id {s t : Ticket} (same : s.id = t.id)
    (plain : s.family.isDefinition = false) : s = t := by
  obtain ⟨families, numbers⟩ := IdFamily.eq_of_id same plain
  exact Ticket.ext families numbers

/-- The kinds of entry that bear their name as their id. -/
def NodeKind.isNamed : NodeKind → Bool
  | .project | .theme | .mocks | .colors => true
  | _ => false

/-- No ticket bears the id of a project or of settings. -/
theorem Ticket.id_ne_name (t : Ticket) {kind : NodeKind} (named : kind.isNamed = true) :
    t.id ≠ kind.name := by
  intro same
  have tags : t.family.tag = kind.name.toList.take 3 := by
    rw [← take_toList_id t.family t.number, ← same]
    rfl
  obtain ⟨family, number⟩ := t
  cases kind <;> cases named <;> cases family <;> simp [IdFamily.tag, NodeKind.name] at tags

/-! ### Ids and parents of drafts -/

section Drafts

variable {names : DefinedNames} {parent : NodeId}

@[simp]
theorem id_draft (n : NumberedBlock) (parent : NodeId) :
    (NumberedBlock.draft names n parent).id = (NumberedBlock.ticket n).id := by
  cases n <;> rfl

@[simp]
theorem parent_draft (n : NumberedBlock) (parent : NodeId) :
    (NumberedBlock.draft names n parent).parent = some parent := by
  cases n <;> rfl

theorem map_id_blockDrafts (n : NumberedBlock) (parent : NodeId) :
    (NumberedBlock.drafts names n parent).map Draft.id =
      (NumberedBlock.tickets n).map Ticket.id := by
  rw [NumberedBlock.drafts, NumberedBlock.tickets, Tree.walk_eq_cons_links]
  simp only [List.map_cons, List.map_map, Function.comp_def, id_draft]

/-- The drafts of an item bear the ids of its tickets. -/
theorem map_id_drafts (item : NumberedItem) (parent : NodeId) :
    (item.drafts names parent).map Draft.id = item.tickets.map Ticket.id := by
  cases item <;> simp [NumberedItem.drafts, NumberedItem.tickets, definitionDraft, screenDraft,
    map_id_blockDrafts]

theorem parent_of_mem_blockDrafts {n : NumberedBlock} {d : Draft}
    (inside : d ∈ NumberedBlock.drafts names n parent) :
    d.parent = some parent ∨ ∃ t ∈ NumberedBlock.tickets n, d.parent = some t.id := by
  rcases List.mem_cons.mp inside with rfl | below
  · exact .inl (parent_draft n parent)
  · obtain ⟨⟨p, c⟩, linked, rfl⟩ := List.mem_map.mp below
    have reached := (Tree.mem_links_iff.mp linked).1
    exact .inr ⟨_, List.mem_map_of_mem reached, parent_draft c _⟩

/-- A draft of an item is that of the item itself or one of its body. -/
theorem NumberedItem.mem_drafts {item : NumberedItem} {d : Draft}
    (inside : d ∈ item.drafts names parent) :
    ∃ t body, item.body? = some body ∧ item.tickets = t :: NumberedBlock.tickets body ∧
      (item.kind? = some d.subject.kind ∧ d.parent = some parent ∨
        d ∈ NumberedBlock.drafts names body t.id) := by
  cases item with
  | settings => contradiction
  | componentDefinition t | layoutDefinition t | screen t =>
    refine ⟨t, _, rfl, rfl, ?_⟩
    rcases List.mem_cons.mp inside with rfl | below
    · exact .inl ⟨rfl, rfl⟩
    · exact .inr below

/-- Inside an item every part lies in the item or in a part that took a ticket there. -/
theorem parent_of_mem_drafts {item : NumberedItem} {d : Draft}
    (inside : d ∈ item.drafts names parent) :
    d.parent = some parent ∨ ∃ t ∈ item.tickets, d.parent = some t.id := by
  obtain ⟨t, body, -, tickets, ⟨-, own⟩ | below⟩ := NumberedItem.mem_drafts inside
  · exact .inl own
  · rw [tickets]
    rcases parent_of_mem_blockDrafts below with own | ⟨u, held, own⟩
    · exact .inr ⟨t, List.mem_cons_self, own⟩
    · exact .inr ⟨u, List.mem_cons_of_mem _ held, own⟩

end Drafts

end Wireframe
