import Wireframe.Proofs.Formatting
import Wireframe.Proofs.Hierarchy
import Wireframe.Proofs.NestingLimit
import Wireframe.Proofs.WrittenOrder

/-!
# How deep projects are

Every part of a project is written between the braces of the part around it and behind closed braces
only, so it has as many braces open around it as it lies levels below the project. Therefore what
the nesting check lets through is no deeper than its limit. Neither is the source map, in which the
entry of a part lies as deep as the part.

## Main definitions

* `LevelsBelow` — a part lies some number of levels below another.
* `Braced` — a row of tokens opens a block and closes it.
* `Node.WrittenIn` — a part is written in a row, behind closed braces only.
* `DepthBounded` — a project and its source map are not too deep.

## Main results

* `mem_walk_iff_levelsBelow` — a walk reaches what lies some number of levels below.
* `Node.WrittenAs.exists_child` — a child is written between the braces of the part around it.
* `LevelsBelow.add_le` — where braces are not nested too deep, parts are not.
* `ProjectBlock.levelsBelow_depthAt` — entries lie as deep as their parts.
* `nesting_bounded` — what the nesting check bounds, and what it refuses.
-/

namespace Wireframe

/-! ### Levels -/

/-- A part lies `n` levels below another. -/
inductive LevelsBelow : (n : Nat) → (a b : Node) → Prop
  | here {a : Node} : LevelsBelow 0 a a
  | down {n : Nat} {a c b : Node} :
    c ∈ a.children → LevelsBelow n c b → LevelsBelow (n + 1) a b

/-- The children of a part lie one level deeper. -/
theorem LevelsBelow.child {n : Nat} {a b c : Node} (below : LevelsBelow n a b)
    (child : c ∈ b.children) : LevelsBelow (n + 1) a c := by
  induction below with
  | here => exact .down child .here
  | down first _ ih => exact .down first (ih child)

/-- A part and all parts inside it, each before the parts inside it. -/
def Node.walk : Node → List Node
  | .project p => p.walk
  | .definition d => d.walk
  | .screen s => s.walk
  | .element e => e.walk.map .element

theorem Node.walk_eq_cons (a : Node) : a.walk = a :: a.children.flatMap Node.walk := by
  cases a with
  | project p =>
    simp only [walk, Project.walk, children, List.flatMap_append, List.flatMap_map]
  | definition d => simp [walk, Definition.walk, children]
  | screen s => simp [walk, Screen.walk, children]
  | element e =>
    rw [walk, Tree.walk_eq_cons, List.map_cons, List.map_flatMap, children, List.flatMap_map]
    rfl

theorem Project.project_mem_walk (project : Project) : .project project ∈ project.walk :=
  List.mem_cons_self

/-- Nothing lies around a project. -/
theorem Node.project_not_mem_children (a : Node) (project : Project) :
    .project project ∉ a.children := by
  cases a <;> simp [children]

/-- What holds of a part whenever it holds of its children holds of every part. -/
@[elab_as_elim]
theorem Node.induction_children {motive : Node → Prop}
    (node : ∀ a, (∀ c ∈ a.children, motive c) → motive a) : ∀ a, motive a := by
  have element : ∀ e : Element, motive (.element e) := by
    intro e
    induction e using Tree.induction_children with
    | node e ih =>
      refine node _ fun c child => ?_
      obtain ⟨t, held, rfl⟩ := List.mem_map.mp child
      exact ih t held
  have definition : ∀ d, motive (.definition d) := by
    refine fun d => node _ fun c child => ?_
    rw [List.mem_singleton.mp child]
    exact element d.body
  have screen : ∀ s, motive (.screen s) := by
    refine fun s => node _ fun c child => ?_
    rw [List.mem_singleton.mp child]
    exact element s.layout.toTree
  intro a
  cases a with
  | project p =>
    refine node _ fun c child => ?_
    rcases List.mem_append.mp child with held | held
    · obtain ⟨d, -, rfl⟩ := List.mem_map.mp held
      exact definition d
    · obtain ⟨s, -, rfl⟩ := List.mem_map.mp held
      exact screen s
  | definition d => exact definition d
  | screen s => exact screen s
  | element e => exact element e

/-- A walk reaches what lies some number of levels below. -/
theorem mem_walk_iff_levelsBelow {a b : Node} : b ∈ a.walk ↔ ∃ n, LevelsBelow n a b := by
  constructor
  · intro reached
    induction a using Node.induction_children with
    | node a ih =>
      rw [a.walk_eq_cons] at reached
      rcases List.mem_cons.mp reached with rfl | inside
      · exact ⟨0, .here⟩
      · obtain ⟨c, child, within⟩ := List.mem_flatMap.mp inside
        obtain ⟨n, below⟩ := ih c child within
        exact ⟨n + 1, .down child below⟩
  · rintro ⟨n, below⟩
    induction below with
    | here =>
      rw [Node.walk_eq_cons]
      exact List.mem_cons_self
    | down child _ ih =>
      rw [Node.walk_eq_cons]
      exact List.mem_cons_of_mem _ (List.mem_flatMap.mpr ⟨_, child, ih⟩)

/-! ### What is written between braces -/

/-- A row of tokens ends with an opening brace, and all braces before it are closed. -/
def Opening (ts : List Token) : Prop :=
  ∃ before, ts = before ++ [.mark .leftBrace] ∧ Balanced before

section Heads

theorem Spells.opening {a : Phrase} {ws : List Written} {brace : Lexeme} (spells : Spells a ws)
    (left : brace.token = .mark .leftBrace) :
    Opening ((ws ++ [Written.own brace]).map Written.token) := by
  refine ⟨ws.map Written.token, ?_, spells.balanced⟩
  rw [← left, List.map_append]
  rfl

theorem LayoutHead.Sound.opens {head : LayoutHead} (sound : head.Sound) :
    Opening (head.written.map Written.token) := by
  have spells : Spells (.seq (.keyword .layout) (.seq (.rule .id) (.optional (.rule .params))))
      (.own head.keyword :: .own head.kind :: writtenParams head.params) :=
    .cons sound.keyword (.seq (derivable_id sound.kind) (spells_writtenParams sound.params))
  exact spells.opening sound.opening

theorem CellHead.Sound.opens {head : CellHead} (sound : head.Sound) :
    Opening (head.written.map Written.token) := by
  have spells : Spells (.seq (.keyword .cell) (.many (.rule .property)))
      (.own head.keyword :: head.properties.flatMap WrittenProperty.written) :=
    .cons sound.keyword (spells_properties sound.properties)
  exact spells.opening sound.opening

theorem ScreenHead.Sound.opens {head : ScreenHead} (sound : head.Sound) :
    Opening (head.written.map Written.token) := by
  have spells : Spells (.seq (.keyword .screen) (.seq (.rule .id) (.optional (.rule .params))))
      (.own head.keyword :: .own head.name :: writtenParams head.params) :=
    .cons sound.keyword (.seq (derivable_id sound.name) (spells_writtenParams sound.params))
  exact spells.opening sound.opening

theorem DefinitionHead.Sound.opens {head : DefinitionHead} {word : Keyword}
    (sound : head.Sound word) : Opening (head.written.map Written.token) := by
  have spells : Spells (.seq (.keyword .define) (.seq (.keyword word) (.terminal .string)))
      [.own head.define, .own head.kind, .own head.name] :=
    .cons sound.define (.cons sound.kind (.terminal (exists_of_isString sound.name)))
  exact spells.opening sound.opening

theorem ProjectHead.Sound.opens {head : ProjectHead} (sound : head.Sound) :
    Opening (head.written.map Written.token) := by
  have spells : Spells (.seq (.keyword .project) (.terminal .string))
      [.own head.keyword, .own head.name] :=
    .cons sound.keyword (.terminal (exists_of_isString sound.name))
  exact spells.opening sound.opening

end Heads

/-- A row of tokens opens a block, holds `inside` and closes the block. -/
def Braced (row inside : List Lexeme) : Prop :=
  ∃ (opened : List Lexeme) (closing : Lexeme), row = opened ++ (inside ++ [closing]) ∧
    Opening (opened.map Lexeme.token) ∧ closing.token = .mark .rightBrace

section Braced

variable {row inside front inner back : List Lexeme}

theorem Braced.of_fits {ws : List Written} {opened : List Lexeme} {closing : Lexeme}
    (opens : Opening (ws.map Written.token)) (fits : List.Forall₂ Written.Fits ws opened)
    (closed : closing.token = .mark .rightBrace) :
    Braced (opened ++ (inside ++ [closing])) inside :=
  ⟨opened, closing, rfl, map_token_of_fits fits ▸ opens, closed⟩

theorem Braced.balanced (braced : Braced row inside)
    (balanced : Balanced (inside.map Lexeme.token)) : Balanced (row.map Lexeme.token) := by
  obtain ⟨opened, closing, rfl, ⟨before, opens, front⟩, closed⟩ := braced
  rw [List.map_append, List.map_append, List.map_singleton, opens, closed, List.append_assoc]
  exact front.append balanced.block

/-- Behind closed braces only the one that opens the block is open in it. -/
theorem Braced.opensWithin {limit depth : Nat} (braced : Braced row (front ++ (inner ++ back)))
    (closed : Balanced (front.map Lexeme.token))
    (within : OpensWithin limit depth (row.map Lexeme.token)) :
    OpensWithin limit (depth + 1) (inner.map Lexeme.token) := by
  obtain ⟨opened, closing, rfl, ⟨before, opens, balanced⟩, -⟩ := braced
  intro part inside
  have start : before ++ [.mark .leftBrace] ++ front.map Lexeme.token ++ part <+:
      (opened ++ (front ++ (inner ++ back) ++ [closing])).map Lexeme.token := by
    obtain ⟨others, whole⟩ := inside
    simp only [List.map_append, opens, ← whole, List.append_assoc]
    refine ⟨others ++ (back.map Lexeme.token ++ [closing].map Lexeme.token), ?_⟩
    simp only [List.append_assoc]
  have bound := within _ start
  simp [balanced.total, closed.total] at bound
  omega

end Braced

/-- The rows of a list one after the other. -/
theorem balanced_flatten {rows : List (List Lexeme)}
    (all : ∀ row ∈ rows, Balanced (row.map Lexeme.token)) :
    Balanced (rows.flatten.map Lexeme.token) := by
  induction rows with
  | nil => exact balanced_nil
  | cons row rows ih =>
    obtain ⟨first, others⟩ := List.forall_mem_cons.mp all
    rw [List.flatten_cons, List.map_append]
    exact first.append (ih others)

/-! ### What is written of a part -/

/-- A component is balanced, and a layout or cell is written between braces. -/
theorem WrittenAs.braced {e : Element} {row : List Lexeme} (written : WrittenAs e row) :
    e.children = [] ∧ Balanced (row.map Lexeme.token) ∨
      ∃ rows, Braced row rows.flatten ∧ List.Forall₂ WrittenAs e.children rows := by
  cases written with
  | component written =>
    obtain ⟨block, sound, fits, -⟩ := written
    exact .inl ⟨rfl, map_token_of_fits fits ▸ sound.spells.balanced⟩
  | layout opens inside closed =>
    obtain ⟨head, sound, fits, -⟩ := opens
    exact .inr ⟨_, .of_fits sound.opens fits closed, inside⟩
  | cell opens inside others closed =>
    obtain ⟨head, sound, fits, -⟩ := opens
    exact .inr ⟨_, .of_fits sound.opens fits closed, inside⟩

theorem exists_of_forall₂ {α β : Type} {R : α → β → Prop} {xs : List α} {ys : List β}
    (all : List.Forall₂ R xs ys) {x : α} (held : x ∈ xs) :
    ∃ front y back, ys = front ++ y :: back ∧ R x y := by
  induction all with
  | nil => contradiction
  | cons first _ ih =>
    rcases List.mem_cons.mp held with rfl | behind
    · exact ⟨[], _, _, rfl, first⟩
    · obtain ⟨front, y, back, rfl, rel⟩ := ih behind
      exact ⟨_ :: front, y, back, rfl, rel⟩

theorem WrittenAs.balanced {e : Element} {row : List Lexeme} (written : WrittenAs e row) :
    Balanced (row.map Lexeme.token) := by
  induction e using Tree.induction_children generalizing row with
  | node e ih =>
    rcases written.braced with ⟨-, balanced⟩ | ⟨rows, braced, all⟩
    · exact balanced
    · refine braced.balanced (balanced_flatten fun row held => ?_)
      obtain ⟨front, c, back, split, own⟩ := exists_of_forall₂ all.flip held
      exact ih c (by rw [split]; simp) own

theorem Definition.WrittenAs.braced {d : Definition} {row : List Lexeme}
    (written : d.WrittenAs row) : ∃ body, Braced row body ∧ Wireframe.WrittenAs d.body body := by
  obtain ⟨head, opened, body, closing, rfl, closed, sound, fits, -, own⟩ := written
  exact ⟨body, .of_fits sound.opens fits closed, own⟩

theorem Screen.WrittenAs.braced {s : Screen} {row : List Lexeme} (written : s.WrittenAs row) :
    ∃ body, Braced row body ∧ Wireframe.WrittenAs s.layout.toTree body := by
  obtain ⟨head, opened, body, closing, rfl, closed, sound, fits, -, -, own⟩ := written
  exact ⟨body, .of_fits sound.opens fits closed, own⟩

theorem Project.WrittenAs.braced {project : Project} {row : List Lexeme}
    (written : project.WrittenAs row) : ∃ items, Braced row items ∧
      ItemsWrittenAs project.definitions project.screens items := by
  obtain ⟨head, opened, items, closing, rfl, closed, sound, fits, -, own⟩ := written
  exact ⟨items, .of_fits sound.opens fits closed, own⟩

/-- A part of a project is written as a row of tokens. -/
def Node.WrittenAs : Node → List Lexeme → Prop
  | .project p => p.WrittenAs
  | .definition d => d.WrittenAs
  | .screen s => s.WrittenAs
  | .element e => Wireframe.WrittenAs e

/-- A part is written in a row, and all braces before it are closed. -/
def Node.WrittenIn (a : Node) (row : List Lexeme) : Prop :=
  ∃ front inner back, row = front ++ (inner ++ back) ∧ Balanced (front.map Lexeme.token) ∧
    a.WrittenAs inner

theorem Node.WrittenIn.behind {a : Node} {row first : List Lexeme} (written : a.WrittenIn row)
    (balanced : Balanced (first.map Lexeme.token)) : a.WrittenIn (first ++ row) := by
  obtain ⟨front, inner, back, rfl, closed, own⟩ := written
  refine ⟨first ++ front, inner, back, by simp only [List.append_assoc], ?_, own⟩
  rw [List.map_append]
  exact balanced.append closed

theorem Node.WrittenAs.writtenIn {a : Node} {row : List Lexeme} (written : a.WrittenAs row)
    (back : List Lexeme) : a.WrittenIn (row ++ back) :=
  ⟨[], row, back, rfl, balanced_nil, written⟩

/-- Every definition and every screen is written somewhere among the items. -/
theorem ItemsWrittenAs.writtenIn {ds : List Definition} {ss : List Screen} {row : List Lexeme}
    (written : ItemsWrittenAs ds ss row) {c : Node}
    (held : c ∈ ds.map Node.definition ++ ss.map Node.screen) : c.WrittenIn row := by
  induction written with
  | nil => contradiction
  | @settings block row sound fits _ _ _ _ ih =>
    have balanced : Balanced (block.written.map Written.token) :=
      (spells_settings sound.head sound.properties sound.closing).balanced
    rw [map_token_of_fits fits] at balanced
    exact (ih held).behind balanced
  | @definition d row first _ _ _ _ ih =>
    obtain ⟨body, braced, own⟩ := first.braced
    rcases List.mem_cons.mp held with rfl | later
    · exact Node.WrittenAs.writtenIn (a := .definition d) first _
    · exact (ih later).behind (braced.balanced own.balanced)
  | @screen s row first _ _ _ _ ih =>
    obtain ⟨body, braced, own⟩ := first.braced
    rcases (List.perm_middle.mem_iff.trans List.mem_cons).mp held with rfl | other
    · exact Node.WrittenAs.writtenIn (a := .screen s) first _
    · exact (ih other).behind (braced.balanced own.balanced)

/-- A child is written inside the braces of the part around it. -/
theorem Node.WrittenAs.exists_child {a c : Node} {row : List Lexeme} (written : a.WrittenAs row)
    (child : c ∈ a.children) : ∃ inside, Braced row inside ∧ c.WrittenIn inside := by
  cases a with
  | project p =>
    obtain ⟨items, braced, own⟩ := Project.WrittenAs.braced written
    exact ⟨items, braced, own.writtenIn child⟩
  | definition d =>
    obtain ⟨body, braced, own⟩ := Definition.WrittenAs.braced written
    rw [List.mem_singleton.mp child]
    exact ⟨body, braced, [], body, [], by simp, balanced_nil, own⟩
  | screen s =>
    obtain ⟨body, braced, own⟩ := Screen.WrittenAs.braced written
    rw [List.mem_singleton.mp child]
    exact ⟨body, braced, [], body, [], by simp, balanced_nil, own⟩
  | element e =>
    obtain ⟨t, held, rfl⟩ := List.mem_map.mp child
    rcases Wireframe.WrittenAs.braced written with ⟨leaf, -⟩ | ⟨rows, braced, all⟩
    · rw [leaf] at held
      contradiction
    · obtain ⟨front, inner, back, rfl, own⟩ := exists_of_forall₂ all held
      refine ⟨_, braced, front.flatten, inner, back.flatten, by simp, ?_, own⟩
      refine balanced_flatten fun row before => ?_
      obtain ⟨_, other, _, -, rel⟩ := exists_of_forall₂ all.flip
        (List.mem_append_left (inner :: back) before)
      exact Wireframe.WrittenAs.balanced rel

/-- Where no part of a row opens too many blocks, nothing that is written there lies too deep. -/
theorem LevelsBelow.add_le {limit depth n : Nat} {a b : Node} (below : LevelsBelow n a b)
    {row : List Lexeme} (written : a.WrittenAs row)
    (within : OpensWithin limit depth (row.map Lexeme.token)) : depth + n ≤ limit := by
  induction below generalizing depth row with
  | here => exact within.room
  | down child _ ih =>
    obtain ⟨inside, braced, front, inner, back, rfl, closed, own⟩ := written.exists_child child
    have bound := ih own (braced.opensWithin closed within)
    omega

/-! ### Depth in a source map -/

theorem SourceMap.mem_of_mem_screensLast {map : SourceMap} {e : Entry}
    (listed : e ∈ map.screensLast) : e ∈ map.entries := by
  rcases List.mem_append.mp listed with other | under
  · exact List.mem_of_mem_filter (List.mem_of_mem_filter other)
  · exact List.mem_of_mem_filter (List.mem_of_mem_filter under)

theorem SourceMap.mem_screensLast {map : SourceMap} {e : Entry} (listed : e ∈ map.entries)
    (part : e.kind.isSettings = false) : e ∈ map.screensLast := by
  classical
  have held : e ∈ map.parts := List.mem_filter.mpr ⟨listed, by simp [part]⟩
  by_cases under : UnderScreen map.entries e
  · exact List.mem_append_right _ (List.mem_filter.mpr ⟨held, by simpa using under⟩)
  · exact List.mem_append_left _ (List.mem_filter.mpr ⟨held, by simpa using under⟩)

namespace ProjectBlock

variable {block : ProjectBlock} {text : List Char} {node : Node}

/-- Every part has an entry, which mirrors the link that leads to the part. -/
theorem exists_mirror (walked : node ∈ block.lowered.walk) (text : List Char) :
    ∃ outer, ∃ e ∈ block.entries text, (outer, node) ∈ block.lowered.links ∧
      Mirrors block.lowered (outer, node) e := by
  rw [← block.lowered.map_snd_links] at walked
  obtain ⟨⟨outer, n⟩, link, rfl⟩ := List.mem_map.mp walked
  obtain ⟨front, e, back, split, mirrors⟩ := exists_of_forall₂ (block.mirrors text) link
  have listed : e ∈ SourceMap.screensLast ⟨block.entries text⟩ := by
    rw [split]
    exact List.mem_append_right _ List.mem_cons_self
  exact ⟨outer, e, SourceMap.mem_of_mem_screensLast listed, link, mirrors⟩

/-- Every entry that is not one of settings is that of a part. -/
theorem exists_node {e : Entry} (listed : e ∈ block.entries text)
    (part : e.kind.isSettings = false) :
    ∃ node ∈ block.lowered.walk, node.id = some e.id := by
  have last : e ∈ SourceMap.screensLast ⟨block.entries text⟩ :=
    SourceMap.mem_screensLast listed part
  obtain ⟨front, link, back, split, mirrors⟩ := exists_of_forall₂ (block.mirrors text).flip last
  refine ⟨link.2, ?_, mirrors.id⟩
  rw [← block.lowered.map_snd_links, split]
  exact List.mem_map_of_mem (List.mem_append_right _ List.mem_cons_self)

section Read

variable (read : ProjectBlock.ofLexemes (scan text).lexemes = .ok block)

include read

/-- The parent of an entry is told by any part that bears its id. -/
theorem exists_link {e : Entry} (listed : e ∈ block.entries text)
    (walked : node ∈ block.lowered.walk) (same : node.id = some e.id) :
    ∃ outer, (outer, node) ∈ block.lowered.links ∧ e.parent = outer.bind Node.id ∧
      (e.parent = none → outer = none) := by
  obtain ⟨outer, f, inside, link, mirrors⟩ := exists_mirror walked text
  have ids : f.id = e.id := Option.some.inj (mirrors.id.symm.trans same)
  have parents := (linked_of_read read).namesakes f inside e listed ids
  refine ⟨outer, link, ?_, ?_⟩
  · rw [← parents]
    exact mirrors.parent
  · rw [← parents]
    exact mirrors.root

/-- Entries lie as deep as the parts that they stand for. -/
theorem levelsBelow_depthAt (i : Nat) : ∀ e, (block.entries text)[i]? = some e →
    ∀ node ∈ block.lowered.walk, node.id = some e.id →
      LevelsBelow (SourceMap.depthAt ⟨block.entries text⟩ i) (.project block.lowered) node := by
  have linked := linked_of_read read
  induction i using SourceMap.parentInduction ⟨block.entries text⟩ with
  | outermost i around =>
    intro e here node walked same
    obtain ⟨outer, link, -, root⟩ := exists_link read (List.mem_of_getElem? here) walked same
    rcases linked.parentIndex? here with ⟨-, outside, -⟩ | ⟨j, p, earlier, known, -⟩
    · rcases Project.mem_links link with first | ⟨inner, -, inside, -⟩
      · rw [SourceMap.depthAt_of_none around, (Prod.mk.inj first).2]
        exact .here
      · rw [root outside] at inside
        contradiction
    · rw [around] at known
      contradiction
  | inner i j earlier around ih =>
    intro e here node walked same
    obtain ⟨outer, link, lies, -⟩ := exists_link read (List.mem_of_getElem? here) walked same
    rcases linked.parentIndex? here with ⟨-, -, known⟩ | ⟨k, p, before, known, held, parent, -⟩
    · rw [around] at known
      contradiction
    · rw [around] at known
      obtain rfl : j = k := congrArg Subtype.val (Option.some.inj known)
      rw [parent] at lies
      rcases Project.mem_links link with first | ⟨inner, reached, inside, child⟩
      · rw [(Prod.mk.inj first).1] at lies
        contradiction
      · obtain rfl : outer = some inner := inside
        rw [SourceMap.depthAt_of_some around]
        exact (ih p held inner reached lies.symm).child child

/-- The source map knows the depth of every part. -/
theorem exists_depth (walked : node ∈ block.lowered.walk) :
    ∃ id n, node.id = some id ∧ SourceMap.depth? ⟨block.entries text⟩ id = some n ∧
      LevelsBelow n (.project block.lowered) node := by
  obtain ⟨outer, e, listed, link, mirrors⟩ := exists_mirror walked text
  obtain ⟨i, here⟩ := List.mem_iff_getElem?.mp listed
  have held : (SourceMap.mk (block.entries text)).entries[i]? = some e := here
  obtain ⟨j, f, index, -, first, same⟩ := SourceMap.exists_indexOf? held
  refine ⟨e.id, _, mirrors.id, ?_, levelsBelow_depthAt read j f first node walked ?_⟩
  · rw [SourceMap.depth?, index]
    rfl
  · rw [same]
    exact mirrors.id

/-- Settings lie right below the project. -/
theorem depthAt_of_settings {i : Nat} {e : Entry} (here : (block.entries text)[i]? = some e)
    (settings : e.kind.isSettings = true) :
    SourceMap.depthAt ⟨block.entries text⟩ i ≤ 1 := by
  have linked := linked_of_read read
  obtain ⟨kind, same⟩ := NodeKind.exists_of_isSettings settings
  have project := parent_of_settings (List.mem_of_getElem? here) same
  rcases linked.parentIndex? here with ⟨-, -, around⟩ | ⟨j, p, earlier, around, held, parent, -⟩
  · rw [SourceMap.depthAt_of_none around]
    exact Nat.zero_le 1
  · -- The entry around it bears the id of the project, which nothing lies around.
    rw [project] at parent
    obtain ⟨outer, link, lies, -⟩ := exists_link read (List.mem_of_getElem? held)
      block.lowered.project_mem_walk parent
    rcases Project.mem_links link with first | ⟨inner, -, -, child⟩
    · rw [(Prod.mk.inj first).1] at lies
      rcases linked.parentIndex? held with ⟨-, -, outermost⟩ | ⟨k, q, before, -, -, other, -⟩
      · rw [SourceMap.depthAt_of_some around, SourceMap.depthAt_of_none outermost]
      · rw [other] at lies
        contradiction
    · exact absurd child (inner.project_not_mem_children _)

/-- What lies below the project is no deeper than the nesting check lets it be. -/
theorem le_of_levelsBelow {n : Nat} (below : LevelsBelow n (.project block.lowered) node) :
    n ≤ nestingLimit := by
  have nests := firstTooDeep?_zero_eq_none_iff.mp (ofLexemes_eq_ok_iff.mp read).1
  have written : Node.WrittenAs (.project block.lowered) (scan text).lexemes :=
    lowered_writtenAs read
  have bound := below.add_le written nests.opensWithin
  rwa [Nat.zero_add] at bound

/-- A source map is no deeper than the nesting check lets a project be. -/
theorem maxDepth_le : (SourceMap.mk (block.entries text)).stats.maxDepth ≤ nestingLimit := by
  obtain ⟨-, i, within, attained⟩ :=
    (SourceMap.mk (block.entries text)).maxDepth_eq (List.cons_ne_nil _ _)
  rw [← attained]
  have here : (block.entries text)[i]? = some _ := List.getElem?_eq_getElem within
  cases settings : ((block.entries text)[i]).kind.isSettings with
  | true => exact Nat.le_trans (depthAt_of_settings read here settings) (by decide)
  | false =>
    obtain ⟨node, walked, same⟩ := exists_node (List.mem_of_getElem? here) settings
    exact le_of_levelsBelow read (levelsBelow_depthAt read i _ here node walked same)

end Read

end ProjectBlock

/-! ### What the nesting check bounds -/

/-- A project and its source map are at most `limit` levels deep. -/
structure DepthBounded (limit : Nat) (project : Project) (map : SourceMap) : Prop where
  walk : ∀ node, node ∈ project.walk ↔ ∃ n, LevelsBelow n (.project project) node
  levels : ∀ n node, LevelsBelow n (.project project) node → n ≤ limit
  /-- Every part lies as deep as the source map says. -/
  depths : ∀ node ∈ project.walk, ∃ id n, node.id = some id ∧ map.depth? id = some n ∧
    LevelsBelow n (.project project) node
  deepest : map.stats.maxDepth ≤ limit

/-- The nesting check bounds the depth of every project that is made out of a text, and that of its
source map. A row of tokens that the grammar derives is refused for its nesting exactly if one of
its opening braces stands inside 64 open blocks or more. It is refused for nothing else, and then
the first such brace is all that is reported of its blocks. -/
theorem nesting_bounded (text : String) (ls : List Lexeme) :
    (∀ project map, (tolerant text).built = some (project, map) → DepthBounded 64 project map) ∧
      (Derivable (.rule .project) (ls.map Lexeme.token) →
        ((∃ fault, ProjectBlock.ofLexemes ls = .error fault ∧
            fault.diagnostic.code = .nestingTooDeep) ↔
          ∃ n depth, 64 ≤ depth ∧ OpensAt depth (.rule .project) (ls.map Lexeme.token) n) ∧
        ∀ fault, ProjectBlock.ofLexemes ls = .error fault →
          (∃ n brace, FirstTooDeep 64 (.rule .project) ls brace n ∧
            fault.diagnostic.code = .nestingTooDeep ∧ fault.diagnostic.range = brace.range) ∧
          ((scan text.toList).lexemes = ls →
            (tolerant text).diagnostics.filter (·.phase = .parser) = [fault.diagnostic])) := by
  refine ⟨fun project map built => ?bounds,
    fun derived => ⟨exists_nestingTooDeep_iff derived, fun fault refused => ?refusal⟩⟩
  case bounds =>
    obtain ⟨block, read, rfl, rfl⟩ := exists_block_of_built built
    exact {
      walk := fun node => mem_walk_iff_levelsBelow (a := .project block.lowered)
      levels := fun n node below => ProjectBlock.le_of_levelsBelow read below
      depths := fun node walked => ProjectBlock.exists_depth read walked
      deepest := ProjectBlock.maxDepth_le read }
  case refusal =>
    obtain ⟨brace, found, rfl⟩ := firstTooDeep?_of_refused derived refused
    obtain ⟨n, first⟩ := exists_firstTooDeep derived found
    refine ⟨⟨n, brace, first, rfl, rfl⟩, ?_⟩
    rintro rfl
    exact parser_diagnostics_of_fault refused

/-- Every row of tokens that have the form of tokens is that of a text. -/
theorem tokens_spaced {ts : List Token} (proper : ∀ t ∈ ts, t.Proper) :
    (scan (spaced (ts.map Token.alone)).toList).lexemes.map Lexeme.token = ts := by
  have again := (scan_of_wellCut (wellCut_spacedPieces proper)).2
  rw [token?_spacedPieces] at again
  rwa [← text_spacedPieces, map_token_alone]

/-- The tokens of a screen with `n` layouts inside each other. -/
def layoutsTokens (n : Nat) : List Token :=
  let layout : List Token := [.keyword .layout, .name "stack", .mark .leftBrace]
  .keyword .project :: .string "\"T\"" :: .mark .leftBrace ::
    .keyword .screen :: .name "Main" :: .mark .leftBrace ::
      ((List.replicate n layout).flatten ++ List.replicate (n + 2) (Token.mark .rightBrace))

/-- A project in which `n + 2` blocks are open at a time. -/
def layoutsText (n : Nat) : String :=
  spaced ((layoutsTokens n).map Token.alone)

theorem tokens_layoutsText (n : Nat) :
    (scan (layoutsText n).toList).lexemes.map Lexeme.token = layoutsTokens n := by
  refine tokens_spaced fun t held => ?_
  -- The same tokens stand in a text with one layout, so all of them have the form of tokens.
  have one : t ∈ layoutsTokens 1 := by
    simp [layoutsTokens] at held ⊢
    tauto
  have short : (scan
      "project \"T\" \x7b screen Main \x7b layout stack \x7b\x7d\x7d\x7d".toList).lexemes.map
        Lexeme.token = layoutsTokens 1 := by decide +kernel
  rw [← short] at one
  exact proper_of_clean (by decide +kernel) t one

/-- What the reader gets through is derived, wherever the tokens stand. -/
theorem derivable_of_run_alone {ts : List Token}
    (reads : (ReaderState.start.run none (ts.map Token.alone)).toOption.isSome = true) :
    Derivable (.rule .project) ts := by
  cases ran : ReaderState.start.run none (ts.map Token.alone) with
  | ok block =>
    rw [← map_token_alone ts]
    exact derivable_of_run ran
  | error fault =>
    rw [ran] at reads
    contradiction

/-- With 62 layouts 64 blocks are open at a time, and with 63 one block more than can be. -/
theorem nesting_bounded_layoutsText :
    (∃ project map, (tolerant (layoutsText 62)).built = some (project, map) ∧
        DepthBounded 64 project map) ∧
      ∃ ls, (scan (layoutsText 63).toList).lexemes = ls ∧
        Derivable (.rule .project) (ls.map Lexeme.token) ∧
        ∃ fault n depth brace, ProjectBlock.ofLexemes ls = .error fault ∧
          64 ≤ depth ∧ OpensAt depth (.rule .project) (ls.map Lexeme.token) n ∧
          FirstTooDeep 64 (.rule .project) ls brace n ∧ fault.diagnostic.range = brace.range ∧
          (tolerant (layoutsText 63)).diagnostics.filter (·.phase = .parser) =
            [fault.diagnostic] := by
  have fits := tokens_layoutsText 62
  have exceeds := tokens_layoutsText 63
  have passes : firstTooDeep? 0 ((layoutsTokens 62).map Token.alone) = none := by decide +kernel
  have stops : firstTooDeep? 0 ((layoutsTokens 63).map Token.alone) ≠ none := by decide +kernel
  rw [Ne, firstTooDeep?_zero_eq_none_iff, map_token_alone, ← exceeds] at stops
  rw [firstTooDeep?_zero_eq_none_iff, map_token_alone, ← fits] at passes
  have derived : ∀ n, n = 62 ∨ n = 63 → Derivable (.rule .project) (layoutsTokens n) := by
    rintro n (rfl | rfl) <;> exact derivable_of_run_alone (by decide +kernel)
  have shallow := derived 62 (.inl rfl)
  have deep := derived 63 (.inr rfl)
  rw [← fits] at shallow
  rw [← exceeds] at deep
  refine ⟨?_, _, rfl, deep, ?_⟩
  · cases read : ProjectBlock.ofLexemes (scan (layoutsText 62).toList).lexemes with
    | error fault => exact absurd shallow (not_derivable_of_fault passes read)
    | ok block =>
      have built := congrArg Analysis.built (tolerant_of_block read)
      exact ⟨_, _, built, (nesting_bounded (layoutsText 62) []).1 _ _ built⟩
  · cases read : ProjectBlock.ofLexemes (scan (layoutsText 63).toList).lexemes with
    | ok block =>
      exact absurd (firstTooDeep?_zero_eq_none_iff.mp (ofLexemes_eq_ok_iff.mp read).1) stops
    | error fault =>
      obtain ⟨⟨n, brace, first, -, range⟩, only⟩ :=
        ((nesting_bounded (layoutsText 63) _).2 deep).2 fault read
      obtain ⟨depth, beyond, opens⟩ := first.deep
      exact ⟨fault, n, depth, brace, rfl, beyond, opens, first, range, only rfl⟩

end Wireframe
