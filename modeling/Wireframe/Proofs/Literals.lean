import Wireframe.Proofs.Pointing
import Wireframe.Proofs.Splicing
import Wireframe.Proofs.Verdicts

/-!
# Literals of a text

A literal names the project or a definition, or it is the value of a property. In all of these
places it is taken for the text that it stands for, and never for a number. The lexer and the reader
look only at where literals stand and not at what is written in them, so one literal may take the
place of another.

## Main definitions

* `ReplacesLiteral` — a text with another literal in the place of one of its own.
* `ProjectBlock.Uses` — what literals are written for.
* `ProjectBlock.Takes` — a literal is taken for a text.

## Main results

* `lexemes?_literal` — a literal makes up a text of its own.
* `Derives.of_alike` — the grammar does not tell literals apart.
* `exists_replacesLiteral` — any literal may take the place of another one.
* `ProjectBlock.uses_of_read` — literals are written for nothing else.
* `ProjectBlock.exists_draft_of_bears` — every part that bears properties has a draft.
* `ProjectBlock.takes_of_read` — a project takes every literal for the text that it stands for.
-/

namespace Wireframe

open Piece

/-! ### One literal in the place of another -/

/-- A literal makes up a text of its own. -/
theorem lexemes?_literal {raw : String} (proper : (Token.string raw).Proper) :
    lexemes? raw.toList = .ok [⟨.string raw, ⟨0, byteLength raw.toList⟩,
      (LineIndex.ofText raw.toList).range ⟨0, byteLength raw.toList⟩⟩] := by
  have alone : cuts raw.toList = [.token (.string raw)] := by
    have cut : cuts (raw.toList ++ []) = .token (.string raw) :: cuts [] :=
      cuts_token proper trivial
    rwa [List.append_nil, cuts] at cut
  have whole : pieces raw.toList = [.token (.string raw)] := by
    rw [pieces, alone]
    rfl
  rw [lexemes?, scan, whole, place, Nat.zero_add]
  rfl

/-- Tokens that are the same, or that are both literals. -/
def Token.Alike (t u : Token) : Prop :=
  t = u ∨ t.isString = true ∧ u.isString = true

theorem Terminal.Matches.of_alike {k : Terminal} {t u : Token} (fits : k.Matches t)
    (alike : t.Alike u) : k.Matches u := by
  rcases alike with rfl | ⟨old, new⟩
  · exact fits
  · obtain ⟨raw, rfl⟩ := exists_of_isString old
    cases k with
    | string => exact exists_of_isString new
    | keyword | colon | comma | leftParen | rightParen => cases fits
    | identifier | number | color => obtain ⟨_, same⟩ := fits; cases same

/-- The grammar does not tell literals apart. -/
theorem Derives.of_alike {depth : Nat} {a : Phrase} {ts us : List Token}
    (derived : Derives depth a ts) (alike : List.Forall₂ Token.Alike ts us) :
    Derives depth a us := by
  -- By induction on the derivation: the other row falls into parts where the derived one does.
  induction derived generalizing us with
  | terminal fits =>
    obtain ⟨u, others, same, none, rfl⟩ := List.forall₂_cons_left_iff.mp alike
    rw [List.forall₂_nil_left_iff.mp none]
    exact .terminal (fits.of_alike same)
  | rule _ ih => exact .rule (ih alike)
  | seq _ _ left right =>
    obtain ⟨xs, ys, rfl, first, second⟩ := exists_append_of_forall₂ alike
    exact .seq (left first) (right second)
  | first _ ih => exact .first (ih alike)
  | second _ ih => exact .second (ih alike)
  | absent =>
    rw [List.forall₂_nil_left_iff.mp alike]
    exact .absent
  | present _ ih => exact .present (ih alike)
  | done =>
    rw [List.forall₂_nil_left_iff.mp alike]
    exact .done
  | more _ _ head tail =>
    obtain ⟨xs, ys, rfl, first, others⟩ := exists_append_of_forall₂ alike
    exact .more (head first) (tail others)
  | block _ ih =>
    obtain ⟨left, rest, opening, inside, rfl⟩ := List.forall₂_cons_left_iff.mp alike
    obtain ⟨held, last, rfl, body, brace⟩ := exists_append_of_forall₂ inside
    obtain ⟨right, none, closing, empty, rfl⟩ := List.forall₂_cons_left_iff.mp brace
    -- A brace is no literal, so it is the same on both sides.
    obtain rfl : .mark .leftBrace = left := opening.resolve_right fun both => nomatch both.1
    obtain rfl : .mark .rightBrace = right := closing.resolve_right fun both => nomatch both.1
    rw [List.forall₂_nil_left_iff.mp empty]
    exact .block (ih body)

/-- Whether a row of tokens is read does not depend on what is written in its literals. -/
theorem exists_ofLexemes_of_alike {ls ms : List Lexeme}
    (read : ∃ block, ProjectBlock.ofLexemes ls = .ok block)
    (alike : List.Forall₂ Token.Alike (ls.map Lexeme.token) (ms.map Lexeme.token)) :
    ∃ block, ProjectBlock.ofLexemes ms = .ok block :=
  exists_ofLexemes_iff.mpr ((exists_ofLexemes_iff.mp read).of_alike alike)

/-- Another literal may take the place of one in a row. -/
theorem WellCut.replace_literal {ps qs : List Piece} {old new : String}
    (well : WellCut (ps ++ .token (.string old) :: qs)) (proper : (Token.string new).Proper) :
    WellCut (ps ++ .token (.string new) :: qs) := by
  cases well.behind with
  | token oldProper _ rest =>
    obtain ⟨body, shape, closed⟩ := proper
    obtain ⟨oldBody, oldShape, -⟩ := oldProper
    -- Both begin with a quote, so that what stands in front of them ends where it did.
    refine well.replace_behind (.token ⟨body, shape, closed⟩ trivial rest) (.inr ?_)
    rw [List.flatMap_cons, List.flatMap_cons, Piece.text, Piece.text, Token.text, Token.text,
      shape, oldShape]
    rfl

/-- A text with another literal in the place of one of its own. Nothing is wrong with its tokens,
which are the old ones but for the literal, and it is read if the old text was. -/
structure ReplacesLiteral (text : List Char) (before : List Lexeme) (l : Lexeme)
    (after : List Lexeme) (literal : String) (replaced : List Char) : Prop where
  spliced : ∃ front back, text = front ++ l.text.toList ++ back ∧
    l.span = ⟨byteLength front, byteLength (front ++ l.text.toList)⟩ ∧
    replaced = front ++ literal.toList ++ back
  clean : (scan replaced).diagnostics = []
  tokens : (scan replaced).lexemes.map Lexeme.token =
    before.map Lexeme.token ++ .string literal :: after.map Lexeme.token
  read : (∃ block, ProjectBlock.ofLexemes (scan text).lexemes = .ok block) →
    ∃ block, ProjectBlock.ofLexemes (scan replaced).lexemes = .ok block

/-- Any literal may take the place of another one. -/
theorem exists_replacesLiteral {text : List Char} (clean : (scan text).diagnostics = [])
    {before after : List Lexeme} {l : Lexeme} (split : (scan text).lexemes = before ++ l :: after)
    (literal : l.token.isString = true) {raw : String} (proper : (Token.string raw).Proper) :
    ∃ replaced, ReplacesLiteral text before l after raw replaced := by
  obtain ⟨old, token⟩ := exists_of_isString literal
  obtain ⟨ps, qs, cut, ahead, behind, span, -⟩ := exists_cut clean split
  have well : WellCut (ps ++ .token (.string old) :: qs) := by
    rw [← token, ← cut]
    exact wellCut_cuts (diagnostics_eq_nil_iff.mp clean)
  obtain ⟨clean', tokens⟩ := scan_of_wellCut (well.replace_literal proper)
  have row : (ps ++ .token (.string raw) :: qs).filterMap Piece.token? =
      before.map Lexeme.token ++ .string raw :: after.map Lexeme.token := by
    rw [List.filterMap_append, ahead, ← behind]
    rfl
  rw [row] at tokens
  refine ⟨_, ?spliced, clean', tokens, fun read => exists_ofLexemes_of_alike read ?alike⟩
  case spliced =>
    rw [List.flatMap_append, List.flatMap_singleton] at span
    refine ⟨ps.flatMap Piece.text, qs.flatMap Piece.text, ?_, span, ?_⟩
    · rw [← cuts_text text, cut]
      simp [Piece.text, Lexeme.text]
    · simp [Piece.text, Token.text]
  case alike =>
    rw [tokens, split, List.map_append, List.map_cons]
    refine List.rel_append ?_ (.cons (.inr ⟨literal, rfl⟩) ?_)
    all_goals exact List.forall₂_same.mpr fun t _ => .inl rfl

/-! ### Where literals are written -/

/-- What opens a definition. -/
def DefinitionBlock.head : DefinitionBlock → DefinitionHead
  | .component head _ _ | .layout head _ _ => head

/-- What literals are written for: the name of a project, that of a definition, and values. -/
inductive ProjectBlock.Uses (project : ProjectBlock) : Lexeme → Prop
  | projectName : Uses project project.head.name
  | definitionName {d : DefinitionBlock} : d ∈ project.definitions → Uses project d.head.name
  | value {b : Bearer} {p : WrittenProperty} : project.Bears b → p ∈ b.written →
      Uses project p.value

/-- All literals of a row are used in some way. -/
def LiteralsOf (use : Lexeme → Prop) (ws : List Written) : Prop :=
  ∀ l ∈ owned ws, l.token.isString = true → use l

section Literals

variable {use : Lexeme → Prop} {xs ys ws : List Written} {l : Lexeme}

@[simp]
theorem literalsOf_nil : LiteralsOf use [] :=
  nofun

@[simp]
theorem literalsOf_own :
    LiteralsOf use (.own l :: ws) ↔ (l.token.isString = true → use l) ∧ LiteralsOf use ws :=
  List.forall_mem_cons

@[simp]
theorem literalsOf_append :
    LiteralsOf use (xs ++ ys) ↔ LiteralsOf use xs ∧ LiteralsOf use ys := by
  rw [LiteralsOf, owned_append, List.forall_mem_append]
  rfl

theorem literalsOf_flatMap {α : Type} {f : α → List Written} {items : List α}
    (each : ∀ item ∈ items, LiteralsOf use (f item)) : LiteralsOf use (items.flatMap f) := by
  intro l inside
  rw [owned_flatMap] at inside
  obtain ⟨item, held, own⟩ := List.mem_flatMap.mp inside
  exact each item held l own

@[simp]
theorem isString_keyword (word : Keyword) : (Token.keyword word).isString = false :=
  rfl

@[simp]
theorem isString_mark (sign : Mark) : (Token.mark sign).isString = false :=
  rfl

theorem isString_of_isName {t : Token} (named : t.isName = true) : t.isString = false := by
  cases t with
  | string => contradiction
  | _ => rfl

theorem literalsOf_properties {ps : List WrittenProperty} (sound : ∀ p ∈ ps, p.Sound)
    (values : ∀ p ∈ ps, use p.value) : LiteralsOf use (ps.flatMap WrittenProperty.written) := by
  refine literalsOf_flatMap fun p inside => ?_
  have name := isString_of_isName (sound p inside).name
  rintro l held literal
  rcases List.mem_pair.mp held with rfl | rfl
  · rw [name] at literal
    contradiction
  · exact values p inside

theorem literalsOf_params {params : Option ParamList} (sound : ∀ list ∈ params, list.Sound)
    (values : ∀ p ∈ paramProperties params, use p.value) :
    LiteralsOf use (writtenParams params) := by
  cases params with
  | none => exact literalsOf_nil
  | some list =>
    have sound := sound list rfl
    have inside : LiteralsOf use (separated list.properties) := by
      rw [LiteralsOf, owned_separated]
      exact literalsOf_properties sound.properties values
    simp [writtenParams, ParamList.written, sound.opening, sound.closing, inside]

/-- Around the blocks inside it, a block writes no literals but the values of its properties. -/
theorem literalsOf_front {b : Block} (sound : Block.NodeSound b)
    (values : ∀ p ∈ (Block.bearer b).written, use p.value) :
    LiteralsOf use (Block.front b) ∧ LiteralsOf use (Block.back b) := by
  cases b with
  | component c =>
    have kind := isString_of_isName sound.kind
    have properties := literalsOf_properties sound.properties values
    simp [Block.front, Block.back, ComponentBlock.written, sound.keyword, kind, properties]
  | layout l blocks =>
    obtain ⟨head, closing⟩ := sound
    have kind := isString_of_isName head.kind
    have params := literalsOf_params head.params values
    simp [Block.front, Block.back, LayoutHead.written, head.keyword, kind, head.opening, closing,
      params]
  | cell k blocks =>
    obtain ⟨⟨head, closing⟩, -⟩ := sound
    have properties := literalsOf_properties head.properties values
    simp [Block.front, Block.back, CellHead.written, head.keyword, head.opening, closing,
      properties]

/-- The literals of a block are values of properties. -/
theorem literalsOf_block {b : Block} (sound : Block.Sound b)
    (values : ∀ m ∈ b.walk, ∀ p ∈ (Block.bearer m).written, use p.value) :
    LiteralsOf use (Block.written b) := by
  induction b using Tree.induction_children with
  | node b ih =>
    obtain ⟨own, inside⟩ := Block.sound_iff.mp sound
    obtain ⟨front, back⟩ := literalsOf_front own (values b b.mem_walk_self)
    -- What is written of the block itself stands in front of the blocks inside it and behind them.
    rw [Block.written_eq, literalsOf_append, literalsOf_append]
    refine ⟨front, literalsOf_flatMap fun c child => ih c child (inside c child) ?_, back⟩
    exact fun m below => values m (Tree.mem_walk_iff.mpr (.inr ⟨c, child, below⟩))

/-- A literal is held by the block in which it is written. -/
theorem mem_owned_of_fits {ls : List Lexeme} (fits : List.Forall₂ Written.Fits ws ls)
    (inside : l ∈ ls) (literal : l.token.isString = true) : l ∈ owned ws := by
  induction fits with
  | nil => contradiction
  | @cons w other ws ls first _ ih =>
    rcases List.mem_cons.mp inside with rfl | later
    · cases w with
      | own held =>
        obtain rfl : held = l := first
        exact List.mem_cons_self
      | mark sign =>
        have first : l.token = .mark sign := first
        rw [first] at literal
        contradiction
    · have held := ih later
      cases w with
      | own => exact List.mem_cons_of_mem _ held
      | mark => exact held

end Literals

namespace ProjectBlock

variable {project : ProjectBlock}

theorem literalsOf_item (sound : project.Sound) {item : Item} (listed : item ∈ project.items) :
    LiteralsOf project.Uses item.written := by
  have own := sound.items item listed
  have body : ∀ {body : Block}, item.body? = some body → Block.Sound body →
      LiteralsOf project.Uses (Block.written body) := fun held sound =>
    literalsOf_block sound fun m below p inside => .value (.block listed held below) inside
  have name : ∀ {d : DefinitionBlock}, item = .definition d → project.Uses d.head.name := by
    rintro d rfl
    exact .definitionName (List.mem_filterMap.mpr ⟨_, listed, rfl⟩)
  match item with
  | .settings block =>
    have properties : LiteralsOf project.Uses (block.properties.flatMap WrittenProperty.written) :=
      literalsOf_properties own.properties fun p inside =>
        .value (.settings listed) (List.mem_flatMap.mpr
          ⟨block, List.mem_filterMap.mpr ⟨_, listed, if_pos rfl⟩, inside⟩)
    simp [Item.written, Item.writtenWith, SettingsBlock.written, SettingsHead.written,
      own.head.keyword, own.head.opening, own.closing, properties]
  | .definition (.component first _ _) | .definition (.layout first _ _) =>
    obtain ⟨⟨head, closing⟩, inside⟩ := own
    have named : project.Uses first.name := name rfl
    simp [Item.written, Item.writtenWith, DefinitionHead.written, head.define, head.kind,
      head.opening, closing, body rfl inside, named]
  | .screen block =>
    obtain ⟨⟨head, closing⟩, inside⟩ := own
    have kind := isString_of_isName head.name
    have params : LiteralsOf project.Uses (writtenParams block.head.params) :=
      literalsOf_params head.params fun p inside => .value (.screen listed) inside
    simp [Item.written, Item.writtenWith, ScreenHead.written, head.keyword, kind, head.opening,
      closing, params, body rfl inside]

/-- The literals of a text are the names of its project and of its definitions, and values. -/
theorem uses_of_read {ls : List Lexeme} (read : ofLexemes ls = .ok project) {l : Lexeme}
    (inside : l ∈ ls) (literal : l.token.isString = true) : project.Uses l := by
  have sound := sound_of_read read
  have items : LiteralsOf project.Uses (project.items.flatMap Item.written) :=
    literalsOf_flatMap fun item listed => literalsOf_item sound listed
  have whole : LiteralsOf project.Uses project.inWrittenOrder := by
    simp [inWrittenOrder, ProjectHead.written, sound.head.keyword, sound.head.opening,
      sound.closing, items, Uses.projectName]
  exact whole l (mem_owned_of_fits (written_fits read).2 inside literal) literal

end ProjectBlock

/-! ### The last value under a name -/

namespace OrderedMap

variable {α : Type} {m : OrderedMap α} {key : String} {value : α}

theorem mem_insert_self : (key, value) ∈ (m.insert key value).entries := by
  unfold insert
  split
  · next present =>
    obtain ⟨entry, held, same⟩ := List.mem_map.mp present
    exact List.mem_map.mpr ⟨entry, held, if_pos same⟩
  · exact List.mem_append_right _ (List.mem_singleton.mpr rfl)

theorem mem_insert_of_ne {entry : String × α} (held : entry ∈ m.entries) (other : entry.1 ≠ key) :
    entry ∈ (m.insert key value).entries := by
  unfold insert
  split
  · exact List.mem_map.mpr ⟨entry, held, if_neg other⟩
  · exact List.mem_append_left _ held

/-- A map has what is written last under a key. -/
theorem get?_ofList_of_last {before after : List (String × α)}
    (last : ∀ write ∈ after, write.1 ≠ key) :
    (ofList (before ++ (key, value) :: after)).get? key = some value := by
  refine get?_eq_some_iff.mpr ?_
  -- By induction on what is written later, none of which is written under the key.
  induction after using List.reverseRecOn with
  | nil =>
    rw [ofList, List.foldl_append]
    exact mem_insert_self
  | append_singleton after write ih =>
    obtain ⟨earlier, latest⟩ := List.forall_mem_append.mp last
    rw [← List.cons_append, ← List.append_assoc, ofList, List.foldl_append]
    exact mem_insert_of_ne (ih earlier) (latest write List.mem_cons_self).symm

end OrderedMap

/-! ### The drafts of parts that bear properties -/

/-- A draft lists the properties of one part only. -/
theorem Draft.Lists.unique {d : Draft} {b b' : Bearer} (lists : d.Lists b) (lists' : d.Lists b') :
    b = b' := by
  obtain ⟨kind, keyword, name, written⟩ := b
  obtain ⟨kind', keyword', name', written'⟩ := b'
  obtain rfl : kind = kind' := lists.kind.symm.trans lists'.kind
  obtain rfl : keyword = keyword' :=
    congrArg Hull.first (lists.keyword.symm.trans lists'.keyword)
  obtain rfl : name = name' := lists.name.symm.trans lists'.name
  have drafts := Option.some.inj (lists.properties.symm.trans lists'.properties)
  obtain rfl : written = written' := by
    have same := congrArg (List.map PropertyDraft.written) drafts
    rwa [List.map_map, List.map_map, List.map_id'', List.map_id''] at same
    all_goals exact fun _ => rfl
  rfl

namespace ProjectBlock

variable {project : ProjectBlock} {b : Bearer}

/-- Every block of a project has a draft. -/
theorem exists_draft_of_mem_blocks {m : NumberedBlock} (inside : m ∈ project.blocks) :
    ∃ parent, NumberedBlock.draft project.names m parent ∈ project.drafts := by
  obtain ⟨item, listed, body, held, reached⟩ := mem_blocks.mp inside
  obtain ⟨t, d, -, -, -, drafts, -⟩ :=
    NumberedItem.exists_draft project.names NodeKind.project.name held
  have below : ∃ parent, NumberedBlock.draft project.names m parent ∈
      NumberedBlock.drafts project.names body t.id := by
    rw [Tree.walk_eq_cons_links] at reached
    rcases List.mem_cons.mp reached with rfl | linked
    · exact ⟨t.id, List.mem_cons_self⟩
    · obtain ⟨link, held, rfl⟩ := List.mem_map.mp linked
      exact ⟨_, List.mem_cons_of_mem _ (List.mem_map_of_mem held)⟩
  obtain ⟨parent, own⟩ := below
  refine ⟨parent, List.mem_cons_of_mem _ (mem_itemDrafts_of_item listed ?_)⟩
  rw [drafts]
  exact List.mem_cons_of_mem _ own

theorem exists_numbered_of_mem_items {item : Item} (listed : item ∈ project.items) :
    ∃ numbered ∈ project.numbered, numbered.erase = item := by
  rw [← project.map_erase_numbered] at listed
  exact List.mem_map.mp listed

/-- The draft of a part with its properties: settings of a kind share one, which is that of the
first block. -/
structure Bears.DraftedAs (project : ProjectBlock) (b : Bearer) (d : Draft) : Prop where
  kind : d.subject.kind = b.kind
  keyword : b.kind.isSettings = false → d.keyword = ⟨b.keyword, []⟩
  gives : project.lowered.Gives d.id b.values

/-- A draft that lists the properties of a part is the draft of that part. -/
theorem Bears.draftedAs_of_lists {d : Draft} (drafted : d ∈ project.drafts) (lists : d.Lists b)
    (bears : b.kind.bearsProperties = true) : Bears.DraftedAs project b d := by
  -- It lists the properties of some part that the project gives, and of no other one.
  obtain ⟨b', -, lists', gives⟩ :=
    (drafted_of_mem drafted).exists_bearer (lists.kind ▸ bears)
  obtain rfl := lists.unique lists'
  exact ⟨lists.kind, fun _ => lists.keyword, gives⟩

/-- Settings bear what all blocks of their kind hold. -/
theorem Bears.written_of_settings (bears : project.Bears b) {kind : SettingsKind}
    (settings : b.kind = kind.subject.kind) : b.written = project.written kind := by
  cases bears with
  | settings => rw [SettingsKind.subject_kind_inj settings]
  | screen => cases kind <;> contradiction
  | @block item body b => cases b <;> cases kind <;> contradiction

/-- Settings have a draft, which they share with all settings of their kind. -/
theorem exists_draft_of_settings {s : SettingsBlock} (listed : .settings s ∈ project.items) :
    ∃ d ∈ project.drafts, d.subject.kind = s.head.kind.subject.kind := by
  have held : project.settings s.head.kind ≠ [] :=
    List.ne_nil_of_mem (List.mem_filterMap.mpr ⟨.settings s, listed, if_pos rfl⟩)
  have counted := project.countP_entries [] s.head.kind
  rw [if_neg held] at counted
  obtain ⟨e, listed, same⟩ := List.countP_pos_iff.mp (counted ▸ Nat.one_pos)
  obtain ⟨d, drafted, rfl⟩ := List.mem_map.mp listed
  exact ⟨d, drafted, of_decide_eq_true same⟩

/-- Every part that bears properties has a draft. -/
theorem exists_draft_of_bears (bears : project.Bears b) :
    ∃ d ∈ project.drafts, Bears.DraftedAs project b d := by
  cases bears with
  | @settings s listed =>
    -- The draft may be that of another block, but all blocks of a kind bear the same properties.
    have settings := s.head.kind.isSettings_kind
    obtain ⟨d, drafted, kind⟩ := exists_draft_of_settings listed
    have bearing : d.subject.kind.bearsProperties = true := by
      rw [kind]
      cases s.head.kind <;> rfl
    obtain ⟨b', bears', lists, gives⟩ := (drafted_of_mem drafted).exists_bearer bearing
    have same : b'.kind = s.head.kind.subject.kind := lists.kind.symm.trans kind
    rw [Bearer.values, bears'.written_of_settings same, same] at gives
    exact ⟨d, drafted, kind, fun other => absurd (settings.symm.trans other) (by decide), gives⟩
  | screen listed =>
    obtain ⟨item, numbered, same⟩ := exists_numbered_of_mem_items listed
    cases item with
    | settings | componentDefinition | layoutDefinition => contradiction
    | screen t head l closing =>
      cases same
      have drafted : screenDraft t head closing NodeKind.project.name ∈ project.drafts :=
        List.mem_cons_of_mem _ (mem_itemDrafts_of_item numbered List.mem_cons_self)
      refine ⟨_, drafted, Bears.draftedAs_of_lists drafted ⟨rfl, rfl, rfl, rfl, fun none => ?_⟩ rfl⟩
      exact absurd none (Option.some_ne_none _)
  | block listed held reached =>
    obtain ⟨item, numbered, rfl⟩ := exists_numbered_of_mem_items listed
    rw [item.body?_erase] at held
    obtain ⟨body, own, rfl⟩ := Option.map_eq_some_iff.mp held
    rw [NumberedBlock.erase, Tree.walk_map] at reached
    obtain ⟨m, inBody, rfl⟩ := List.mem_map.mp reached
    have inside : m ∈ project.blocks := mem_blocks.mpr ⟨item, numbered, body, own, inBody⟩
    obtain ⟨parent, drafted⟩ := exists_draft_of_mem_blocks inside
    refine ⟨_, drafted, Bears.draftedAs_of_lists drafted (lists_draft _ m parent) ?_⟩
    cases m <;> rfl

end ProjectBlock

/-! ### What a project takes literals for -/

/-- Definitions are named by what their literals stand for. -/
theorem ProjectBlock.forall₂_definitions (project : ProjectBlock) :
    List.Forall₂ (fun written definition => unquote written.head.name.text = definition.name)
      project.definitions project.lowered.definitions := by
  have names : (project.definitions.map fun d => unquote d.head.name.text) =
      project.lowered.definitions.map Definition.name := by
    rw [← List.filterMap_eq_map, ← List.filterMap_eq_map, lowered, numbered,
      definitions_eq_filterMap]
    refine (filterMap_definitions (fun b used => ?_) project.items []).symm
    cases b with
    | component head body closing => cases body <;> exact ⟨_, rfl, rfl⟩
    | layout head l closing => exact ⟨_, rfl, rfl⟩
  rwa [← List.forall₂_eq_eq_eq, List.forall₂_map_left_iff, List.forall₂_map_right_iff] at names

/-- A literal is taken for a text. It is written as the name of the project or of a definition or as
the value of a property, and there is a text in all of these places. Of the values that a part has
under one name it keeps the last. -/
structure ProjectBlock.Takes (block : ProjectBlock) (row : List Lexeme) (project : Project)
    (map : SourceMap) (literal : Token) (s : String) : Prop where
  uses : ∀ l ∈ row, l.token = literal → block.Uses l
  projectName : block.head.name.token = literal → project.name = s
  definitionNames : List.Forall₂
    (fun written definition => written.head.name.token = literal → definition.name = s)
    block.definitions project.definitions
  values : ∀ b, block.Bears b → ∀ p ∈ b.written, p.value.token = literal →
    b.kind.value p.value.token = .text s
  properties : ∀ b, block.Bears b → ∃ e ∈ map.entries, e.kind = b.kind ∧
    (b.kind.isSettings = false → e.keywordRange = b.keyword.range) ∧
    ∃ given, project.Gives e.id given ∧ ∀ before p after, b.written = before ++ p :: after →
      p.value.token = literal → (∀ q ∈ after, q.name.text ≠ p.name.text) →
      given.get? p.name.text = some (.text s)

theorem NodeKind.value_string (kind : NodeKind) (raw : String) :
    kind.value (.string raw) = .text (unquote raw) := by
  unfold NodeKind.value
  split <;> rfl

/-- A part keeps what is written last under a name. -/
theorem Bearer.get?_values {b : Bearer} {before after : List WrittenProperty} {p : WrittenProperty}
    (split : b.written = before ++ p :: after)
    (last : ∀ q ∈ after, q.name.text ≠ p.name.text) :
    b.values.get? p.name.text = some (b.kind.value p.value.token) := by
  rw [Bearer.values, split, List.map_append, List.map_cons]
  exact OrderedMap.get?_ofList_of_last (List.forall_mem_map.mpr last)

/-- A project takes every literal for the text that it stands for. -/
theorem ProjectBlock.takes_of_read {row : List Lexeme} {block : ProjectBlock}
    (read : ofLexemes row = .ok block) (text : List Char) (raw : String) :
    block.Takes row block.lowered ⟨block.entries text⟩ (.string raw) (unquote raw) where
  uses := fun l inside literal => uses_of_read read inside (congrArg Token.isString literal)
  projectName := by
    intro named
    rw [lowered, Lexeme.text, named]
    rfl
  definitionNames := by
    refine block.forall₂_definitions.imp fun written definition name named => ?_
    rw [← name, Lexeme.text, named]
    rfl
  values := by
    intro b _ p _ literal
    rw [literal, NodeKind.value_string]
  properties := by
    intro b bears
    obtain ⟨d, drafted, draft⟩ := exists_draft_of_bears bears
    refine ⟨block.placed text d, List.mem_map_of_mem drafted, draft.kind, fun other => ?_,
      b.values, draft.gives, fun before p after split literal last => ?_⟩
    · exact congrArg Hull.range (draft.keyword other)
    · rw [Bearer.get?_values split last, literal, NodeKind.value_string]

end Wireframe
