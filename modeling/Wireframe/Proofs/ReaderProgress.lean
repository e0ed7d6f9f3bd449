import Wireframe.Proofs.ReaderInvariant

/-!
# What the reader goes through

The reader gets through every row of tokens that the grammar derives. A derivation is followed rule
by rule: whatever a rule stands for leads the reader from the state in which it may begin to the
state behind it. Layouts and cells contain each other, one level of braces deeper every time, so
this goes by induction on how deep the blocks are nested. A component has no end of its own. The
reader notices it by the next token that is no name, and until then it is at rest in the block
around the component.

## Main definitions

* `Reads` — the lexemes that a phrase stands for.
* `Arrives` — reading some lexemes leads from one state to another.
* `RestsIn` — a state that any token but a name leaves as if it stood in a block.

## Main results

* `reads_blocks` — the reader gets through layouts and cells of every depth.
* `arrives_project` — it gets through every project.
-/

namespace Wireframe

/-- A phrase stands for a row of lexemes. -/
def Reads (depth : Nat) (phrase : Phrase) (ls : List Lexeme) : Prop :=
  Derives depth phrase (ls.map Lexeme.token)

/-! ### Lexemes by the shape of the phrase -/

section Shape

variable {depth : Nat} {a b : Phrase} {k : Terminal} {r : Rule} {ls : List Lexeme}

theorem Reads.terminal (reads : Reads depth (.terminal k) ls) :
    ∃ l, ls = [l] ∧ k.Matches l.token := by
  obtain ⟨t, shape, fits⟩ := derives_terminal_iff.mp reads
  obtain ⟨l, rfl, rfl⟩ := List.map_eq_singleton_iff.mp shape
  exact ⟨l, rfl, fits⟩

theorem Reads.body (reads : Reads depth (.rule r) ls) : Reads depth r.body ls :=
  derives_rule_iff.mp reads

theorem Reads.seq (reads : Reads depth (.seq a b) ls) :
    ∃ xs ys, ls = xs ++ ys ∧ Reads depth a xs ∧ Reads depth b ys := by
  obtain ⟨_, _, shape, first, second⟩ := derives_seq_iff.mp reads
  obtain ⟨xs, ys, rfl, rfl, rfl⟩ := List.map_eq_append_iff.mp shape
  exact ⟨xs, ys, rfl, first, second⟩

/-- A phrase that opens with a single token. -/
theorem Reads.cons (reads : Reads depth (.seq (.terminal k) b) ls) :
    ∃ l ys, ls = l :: ys ∧ k.Matches l.token ∧ Reads depth b ys := by
  obtain ⟨xs, ys, rfl, first, second⟩ := reads.seq
  obtain ⟨l, rfl, fits⟩ := first.terminal
  exact ⟨l, ys, rfl, fits, second⟩

theorem Reads.either (reads : Reads depth (.either a b) ls) : Reads depth a ls ∨ Reads depth b ls :=
  derives_either_iff.mp reads

theorem Reads.optional (reads : Reads depth (.optional a) ls) : ls = [] ∨ Reads depth a ls :=
  (derives_optional_iff.mp reads).imp_left List.map_eq_nil_iff.mp

theorem exists_eq_flatten_of_map_eq_flatten {parts : List (List Token)} :
    ∀ {ls : List Lexeme}, ls.map Lexeme.token = parts.flatten →
      ∃ rows : List (List Lexeme), ls = rows.flatten ∧ rows.map (·.map Lexeme.token) = parts := by
  induction parts with
  | nil =>
    intro ls shape
    exact ⟨[], List.map_eq_nil_iff.mp shape, rfl⟩
  | cons part parts ih =>
    intro ls shape
    obtain ⟨row, others, rfl, rfl, rest⟩ := List.map_eq_append_iff.mp shape
    obtain ⟨rows, rfl, rfl⟩ := ih rest
    exact ⟨row :: rows, rfl, rfl⟩

theorem Reads.many (reads : Reads depth (.many a) ls) :
    ∃ rows : List (List Lexeme), ls = rows.flatten ∧ ∀ row ∈ rows, Reads depth a row := by
  obtain ⟨parts, shape, all⟩ := derives_many_iff.mp reads
  obtain ⟨rows, rfl, rfl⟩ := exists_eq_flatten_of_map_eq_flatten shape
  exact ⟨rows, rfl, fun row inside => all _ (List.mem_map_of_mem inside)⟩

theorem Reads.block (reads : Reads depth (.block a) ls) :
    ∃ below opening inside closing, depth = below + 1 ∧ ls = opening :: (inside ++ [closing]) ∧
      opening.token = .mark .leftBrace ∧ closing.token = .mark .rightBrace ∧
      Reads below a inside := by
  obtain ⟨below, _, deeper, shape, inner⟩ := derives_block_iff.mp reads
  obtain ⟨opening, inside, closing, rfl, left, right, rfl⟩ := exists_eq_of_map_token_eq_block shape
  exact ⟨below, opening, inside, closing, deeper, rfl, left, right, inner⟩

end Shape

section Words

variable {depth : Nat} {ls : List Lexeme}

theorem Reads.id (reads : Reads depth (.rule .id) ls) : ∃ l, ls = [l] ∧ l.token.isName = true := by
  rcases reads.body.either with name | capital
  · obtain ⟨l, rfl, raw, token⟩ := name.terminal
    exact ⟨l, rfl, by rw [token]; rfl⟩
  · rcases capital.either with word | word
    · obtain ⟨l, rfl, token⟩ := word.terminal
      exact ⟨l, rfl, by rw [token]; rfl⟩
    · obtain ⟨l, rfl, token⟩ := word.terminal
      exact ⟨l, rfl, by rw [token]; rfl⟩

theorem Token.isValue_of_isName {t : Token} (named : t.isName = true) : t.isValue = true := by
  unfold Token.isValue
  split
  · rfl
  · rfl
  · rfl
  · exact named

theorem Reads.value (reads : Reads depth (.rule .value) ls) :
    ∃ l, ls = [l] ∧ l.token.isValue = true := by
  rcases reads.body.either with name | literal
  · obtain ⟨l, rfl, named⟩ := name.id
    exact ⟨l, rfl, Token.isValue_of_isName named⟩
  · rcases literal.either with text | literal
    · obtain ⟨l, rfl, raw, token⟩ := text.terminal
      exact ⟨l, rfl, by rw [token]; rfl⟩
    · rcases literal.either with number | color
      · obtain ⟨l, rfl, raw, token⟩ := number.terminal
        exact ⟨l, rfl, by rw [token]; rfl⟩
      · obtain ⟨l, rfl, raw, token⟩ := color.terminal
        exact ⟨l, rfl, by rw [token]; rfl⟩

theorem Reads.property (reads : Reads depth (.rule .property) ls) :
    ∃ name colon value, ls = [name, colon, value] ∧ name.token.isName = true ∧
      colon.token = .mark .colon ∧ value.token.isValue = true := by
  obtain ⟨_, _, rfl, first, second⟩ := reads.body.seq
  obtain ⟨name, rfl, named⟩ := first.id
  obtain ⟨colon, _, rfl, sign, third⟩ := second.cons
  obtain ⟨value, rfl, valued⟩ := third.value
  exact ⟨name, colon, value, rfl, named, sign, valued⟩

theorem Reads.string (reads : Reads depth (.terminal .string) ls) :
    ∃ l, ls = [l] ∧ l.token.isString = true := by
  obtain ⟨l, rfl, raw, token⟩ := reads.terminal
  exact ⟨l, rfl, by rw [token]; rfl⟩

theorem Reads.titled {word : Keyword} {a : Phrase} (reads : Reads depth (titled word a) ls) :
    ∃ below keyword name opening inside closing,
      ls = keyword :: name :: opening :: (inside ++ [closing]) ∧
      keyword.token = .keyword word ∧ name.token.isString = true ∧
      opening.token = .mark .leftBrace ∧ closing.token = .mark .rightBrace ∧
      Reads below a inside := by
  obtain ⟨keyword, _, rfl, first, afterWord⟩ := Reads.cons reads
  obtain ⟨_, _, rfl, text, block⟩ := afterWord.seq
  obtain ⟨name, rfl, quoted⟩ := text.string
  obtain ⟨below, opening, inside, closing, -, rfl, left, right, inner⟩ := block.block
  exact ⟨below, keyword, name, opening, inside, closing, rfl, first, quoted, left, right, inner⟩

end Words

/-! ### Runs -/

/-- Reading a row of lexemes leads from one state to another. -/
inductive Arrives : ReaderState → List Lexeme → ReaderState → Prop
  | refl (s : ReaderState) : Arrives s [] s
  | step {s next last : ReaderState} {t : Lexeme} {ls : List Lexeme} :
    s.step t = some next → Arrives next ls last → Arrives s (t :: ls) last

theorem Arrives.one {s next : ReaderState} {t : Lexeme} (step : s.step t = some next) :
    Arrives s [t] next :=
  .step step (.refl next)

theorem Arrives.trans {s next last : ReaderState} {xs ys : List Lexeme}
    (first : Arrives s xs next) (second : Arrives next ys last) : Arrives s (xs ++ ys) last := by
  induction first with
  | refl s => exact second
  | step one _ ih => exact .step one (ih second)

/-- A run that arrives behind a project has read it. -/
theorem Arrives.run {s last : ReaderState} {ls : List Lexeme} (arrives : Arrives s ls last)
    {project : ProjectBlock} (complete : last = .nothing project) (previous : Option Lexeme) :
    s.run previous ls = .ok project := by
  induction arrives generalizing previous with
  | refl s =>
    rw [complete]
    rfl
  | step one _ ih =>
    rw [ReaderState.run, one]
    exact ih complete _

/-- What every single row leads through, a repetition of rows leads through. -/
theorem arrives_many {depth : Nat} {a : Phrase} (At : ReaderState → Prop)
    (one : ∀ {row : List Lexeme} {s : ReaderState}, Reads depth a row → At s →
      ∃ next, Arrives s row next ∧ At next)
    {ls : List Lexeme} (reads : Reads depth (.many a) ls) {s : ReaderState} (start : At s) :
    ∃ last, Arrives s ls last ∧ At last := by
  -- By induction on the rows: the state behind one row is where the next may begin.
  obtain ⟨rows, rfl, all⟩ := reads.many
  clear reads
  induction rows generalizing s with
  | nil => exact ⟨s, .refl s, start⟩
  | cons row rows ih =>
    obtain ⟨head, tail⟩ := List.forall_mem_cons.mp all
    obtain ⟨next, first, here⟩ := one head start
    obtain ⟨last, others, there⟩ := ih here tail
    exact ⟨last, first.trans others, there⟩

/-! ### Properties -/

section Properties

variable {depth : Nat} {ls : List Lexeme} {site : PropertySite}

/-- From the name of a property on, its value makes it complete. -/
theorem arrives_colon (properties : List WrittenProperty) {name colon value : Lexeme}
    (sign : colon.token = .mark .colon) (valued : value.token.isValue = true) :
    Arrives (.colon site properties name) [colon, value]
      (.property site (properties ++ [⟨name, value⟩])) :=
  .step (if_pos sign) (.one (if_pos valued))

theorem arrives_property (site : PropertySite) (properties : List WrittenProperty)
    (reads : Reads depth (.rule .property) ls) (free : site.takesName properties = true) :
    ∃ p, Arrives (.property site properties) ls (.property site (properties ++ [p])) := by
  obtain ⟨name, colon, value, rfl, named, sign, valued⟩ := reads.property
  have begins : (ReaderState.property site properties).step name =
      some (.colon site properties name) := by
    simp [ReaderState.step, PropertySite.step, named, free]
  exact ⟨⟨name, value⟩, .step begins (arrives_colon properties sign valued)⟩

/-- Outside of parentheses nothing stands between properties. -/
theorem arrives_properties (site : PropertySite)
    (reads : Reads depth (.many (.rule .property)) ls)
    (free : ∀ properties, site.takesName properties = true)
    (properties : List WrittenProperty) :
    ∃ more, Arrives (.property site properties) ls (.property site more) := by
  let At : ReaderState → Prop := fun s => ∃ more, s = .property site more
  have one : ∀ {row : List Lexeme} {s : ReaderState}, Reads depth (.rule .property) row → At s →
      ∃ next, Arrives s row next ∧ At next := by
    rintro row s property ⟨before, rfl⟩
    obtain ⟨p, next⟩ := arrives_property site before property (free before)
    exact ⟨_, next, _, rfl⟩
  obtain ⟨last, arrives, more, rfl⟩ := arrives_many At one reads ⟨properties, rfl⟩
  exact ⟨more, arrives⟩

/-- Between parentheses a comma stands between properties. -/
theorem arrives_commas {site : ParamSite} {opening : Lexeme}
    (reads : Reads depth (.many (.seq (.terminal .comma) (.rule .property))) ls)
    (p : WrittenProperty) :
    ∃ more, Arrives (.property (.params site opening) [p]) ls
      (.property (.params site opening) more) := by
  -- A comma may follow only if there is a property before it.
  let At : ReaderState → Prop :=
    fun s => ∃ first others, s = .property (.params site opening) (first :: others)
  have one : ∀ {row : List Lexeme} {s : ReaderState},
      Reads depth (.seq (.terminal .comma) (.rule .property)) row → At s →
      ∃ next, Arrives s row next ∧ At next := by
    rintro row s another ⟨first, others, rfl⟩
    obtain ⟨comma, _, rfl, sign, property⟩ := another.cons
    obtain ⟨name, colon, value, rfl, named, mark, valued⟩ := property.property
    have pauses : (ReaderState.property (.params site opening) (first :: others)).step comma =
        some (.param site opening (first :: others) comma) := by
      have token : comma.token = .mark .comma := sign
      simp [ReaderState.step, PropertySite.step, PropertySite.leave, token, Token.isName]
    refine ⟨_, .step pauses (.step (if_pos named) (arrives_colon _ mark valued)), ?_⟩
    exact ⟨first, others ++ [⟨name, value⟩], rfl⟩
  obtain ⟨last, arrives, first, others, rfl⟩ := arrives_many At one reads ⟨p, [], rfl⟩
  exact ⟨first :: others, arrives⟩

theorem arrives_params {site : ParamSite} (reads : Reads depth (.rule .params) ls) :
    ∃ l, Arrives (.opening site none) ls (.opening site (some l)) := by
  obtain ⟨opening, _, rfl, left, reads⟩ := reads.body.cons
  obtain ⟨inside, _, rfl, properties, last⟩ := reads.seq
  obtain ⟨closing, rfl, right⟩ := last.terminal
  have opens : (ReaderState.opening site none).step opening =
      some (.property (.params site opening) []) := by
    have token : opening.token = .mark .leftParen := left
    simp [ReaderState.step, ParamSite.step, token]
  have closes : ∀ more, (ReaderState.property (.params site opening) more).step closing =
      some (.opening site (some ⟨opening, more, closing⟩)) := by
    intro more
    have token : closing.token = .mark .rightParen := right
    simp [ReaderState.step, PropertySite.step, PropertySite.leave, token, Token.isName]
  rcases properties.optional with rfl | some
  · exact ⟨_, .step opens (.one (closes []))⟩
  · obtain ⟨_, _, rfl, first, others⟩ := some.seq
    obtain ⟨p, one⟩ := arrives_property (.params site opening) [] first rfl
    obtain ⟨more, rest⟩ := arrives_commas others p
    exact ⟨_, .step opens ((one.trans rest).trans (.one (closes more)))⟩

/-- Parameters may be left out. -/
theorem arrives_optional_params (site : ParamSite)
    (reads : Reads depth (.optional (.rule .params)) ls) :
    ∃ params, Arrives (.opening site none) ls (.opening site params) := by
  rcases reads.optional with rfl | some
  · exact ⟨none, .refl _⟩
  · obtain ⟨l, arrives⟩ := arrives_params some
    exact ⟨_, arrives⟩

end Properties

/-! ### Blocks -/

/-- Any token but a name is read as if the state stood in a block. -/
def RestsIn (s : ReaderState) (block : OpenBlock) : Prop :=
  ∀ t : Lexeme, t.token.isName = false → s.step t = block.step t

theorem restsIn_child (block : OpenBlock) : RestsIn (.child block) block :=
  fun _ _ => rfl

/-- Behind a component the reader is at rest in the block around it. -/
theorem restsIn_component (outer : OpenBlock) (keyword kind : Lexeme)
    (properties : List WrittenProperty) :
    RestsIn (.property (.component (.child outer) keyword kind) properties)
      (outer.add (.component ⟨keyword, kind, properties⟩)) := by
  intro t other
  simp [ReaderState.step, PropertySite.step, PropertySite.leave, ComponentSite.step, other]

namespace OpenBlock

theorem step_of_component (block : OpenBlock) {t : Lexeme} (word : t.token = .keyword .component) :
    block.step t = some (.componentKind (.child block) t) := by
  simp only [step, word]

theorem step_of_layout (block : OpenBlock) {t : Lexeme} (word : t.token = .keyword .layout) :
    block.step t = some (.layoutKind (.child block) t) := by
  simp only [step, word]

/-- A cell may begin where a layout may hold one. -/
theorem step_of_cell {block : OpenBlock} (place : block.child = layoutChild) {t : Lexeme}
    (word : t.token = .keyword .cell) : block.step t = some (.property (.cell block t) []) := by
  cases block with
  | body _ _ _ | layout _ _ _ => simp only [step, word]
  | cell _ _ _ =>
    have other : cellChild ≠ layoutChild := by decide
    exact absurd place other

theorem step_of_rightBrace (block : OpenBlock) {t : Lexeme} (right : t.token = .mark .rightBrace) :
    block.step t = some (block.close t) := by
  simp only [step, right]

/-- The block with more children. -/
def addAll (block : OpenBlock) (children : List Block) : OpenBlock :=
  children.foldl add block

theorem addAll_concat (block : OpenBlock) (children : List Block) (b : Block) :
    block.addAll (children ++ [b]) = (block.addAll children).add b := by
  rw [addAll, List.foldl_append]
  rfl

@[simp]
theorem child_add (block : OpenBlock) (b : Block) : (block.add b).child = block.child := by
  cases block <;> rfl

@[simp]
theorem child_addAll (block : OpenBlock) (children : List Block) :
    (block.addAll children).child = block.child := by
  induction children generalizing block with
  | nil => rfl
  | cons b others ih => exact (ih (block.add b)).trans (block.child_add b)

/-- Children go behind those that a block already has. -/
theorem addAll_eq (holding : List Block → OpenBlock)
    (one : ∀ before b, (holding before).add b = holding (before ++ [b]))
    (before children : List Block) :
    (holding before).addAll children = holding (before ++ children) := by
  induction children generalizing before with
  | nil => rw [List.append_nil, addAll, List.foldl_nil]
  | cons b others ih =>
    have rest := ih (before ++ [b])
    rw [List.append_assoc, List.singleton_append] at rest
    rw [← rest, ← one]
    rfl

end OpenBlock

/-- The state behind a layout. -/
def LayoutSite.filled (site : LayoutSite) (l : LayoutBlock) : ReaderState :=
  match site with
  | .body item => .itemEnd (item.fill l)
  | .child outer => .child (outer.add l.toTree)

/-- A layout closes where it stands. -/
theorem LayoutSite.close_enter (site : LayoutSite) (head : LayoutHead) (children : List Block)
    (closing : Lexeme) :
    ((site.enter head).addAll children).close closing =
      site.filled ⟨⟨head, closing⟩, children⟩ := by
  cases site with
  | body item =>
    rw [LayoutSite.enter, OpenBlock.addAll_eq (.body item head) fun _ _ => rfl]
    rfl
  | child outer =>
    rw [LayoutSite.enter, OpenBlock.addAll_eq (.layout outer head) fun _ _ => rfl]
    rfl

/-- The reader gets through the layouts of some depth, wherever one may begin. -/
def ReadsLayouts (depth : Nat) : Prop :=
  ∀ {ls : List Lexeme} {site : LayoutSite} {s : ReaderState}, Reads depth (.rule .layout) ls →
    (∀ t : Lexeme, t.token = .keyword .layout → s.step t = some (.layoutKind site t)) →
    ∃ l, Arrives s ls (site.filled l)

/-- The reader gets through the cells of some depth, wherever one may begin. -/
def ReadsCells (depth : Nat) : Prop :=
  ∀ {ls : List Lexeme} {outer : OpenBlock} {s : ReaderState}, Reads depth (.rule .cell) ls →
    RestsIn s outer → outer.child = layoutChild → ∃ b, Arrives s ls (.child (outer.add b))

section Blocks

variable {depth : Nat} {ls : List Lexeme}

theorem arrives_component {site : ComponentSite} {s : ReaderState}
    (reads : Reads depth (.rule .component) ls)
    (begins : ∀ t : Lexeme, t.token = .keyword .component →
      s.step t = some (.componentKind site t)) :
    ∃ keyword kind properties,
      Arrives s ls (.property (.component site keyword kind) properties) := by
  obtain ⟨keyword, _, rfl, word, afterWord⟩ := reads.body.cons
  obtain ⟨_, _, rfl, first, properties⟩ := afterWord.seq
  obtain ⟨kind, rfl, named⟩ := first.id
  obtain ⟨more, rest⟩ :=
    arrives_properties (.component site keyword kind) properties (fun _ => rfl) []
  have typed : (ReaderState.componentKind site keyword).step kind =
      some (.property (.component site keyword kind) []) :=
    if_pos named
  exact ⟨keyword, kind, more, .step (begins keyword word) (.step typed rest)⟩

/-- A child takes its place in the block in which the reader is at rest. -/
theorem arrives_child (layouts : ReadsLayouts depth) (cells : ReadsCells depth)
    {block : OpenBlock} {s : ReaderState} (reads : Reads depth block.child ls)
    (rests : RestsIn s block) : ∃ next b, Arrives s ls next ∧ RestsIn next (block.add b) := by
  have component : Reads depth (.rule .component) ls →
      ∃ next b, Arrives s ls next ∧ RestsIn next (block.add b) := by
    intro one
    have begins : ∀ t : Lexeme, t.token = .keyword .component →
        s.step t = some (.componentKind (.child block) t) := by
      intro t word
      rw [rests t (by rw [word]; rfl), block.step_of_component word]
    obtain ⟨keyword, kind, more, arrives⟩ := arrives_component one begins
    exact ⟨_, _, arrives, restsIn_component block keyword kind more⟩
  have layout : Reads depth (.rule .layout) ls →
      ∃ next b, Arrives s ls next ∧ RestsIn next (block.add b) := by
    intro one
    have begins : ∀ t : Lexeme, t.token = .keyword .layout →
        s.step t = some (.layoutKind (.child block) t) := by
      intro t word
      rw [rests t (by rw [word]; rfl), block.step_of_layout word]
    obtain ⟨l, arrives⟩ := layouts one begins
    exact ⟨_, _, arrives, restsIn_child _⟩
  have ofLayoutChild : block.child = layoutChild →
      ∃ next b, Arrives s ls next ∧ RestsIn next (block.add b) := by
    intro place
    rw [place] at reads
    rcases reads.either with one | others
    · exact component one
    · rcases others.either with one | one
      · exact layout one
      · obtain ⟨b, arrives⟩ := cells one rests place
        exact ⟨_, _, arrives, restsIn_child _⟩
  cases block with
  | body item head children => exact ofLayoutChild rfl
  | layout outer head children => exact ofLayoutChild rfl
  | cell outer head children =>
    rcases Reads.either reads with one | one
    · exact component one
    · exact layout one

theorem arrives_children (layouts : ReadsLayouts depth) (cells : ReadsCells depth)
    {block : OpenBlock} {s : ReaderState} (reads : Reads depth (.many block.child) ls)
    (rests : RestsIn s block) :
    ∃ last children, Arrives s ls last ∧ RestsIn last (block.addAll children) := by
  let At : ReaderState → Prop := fun s => ∃ children, RestsIn s (block.addAll children)
  have one : ∀ {row : List Lexeme} {s : ReaderState}, Reads depth block.child row → At s →
      ∃ next, Arrives s row next ∧ At next := by
    rintro row s child ⟨children, here⟩
    rw [← block.child_addAll children] at child
    obtain ⟨next, b, arrives, there⟩ := arrives_child layouts cells child here
    rw [← OpenBlock.addAll_concat] at there
    exact ⟨next, arrives, _, there⟩
  obtain ⟨last, arrives, children, there⟩ := arrives_many At one reads ⟨[], rests⟩
  exact ⟨last, children, arrives, there⟩

/-- Behind its children a block closes. -/
theorem step_of_restsIn {s : ReaderState} {block : OpenBlock} {closing : Lexeme}
    (rests : RestsIn s block) (right : closing.token = .mark .rightBrace) :
    s.step closing = some (block.close closing) := by
  rw [rests closing (by rw [right]; rfl), block.step_of_rightBrace right]

/-- The reader gets through a layout if it gets through those one level deeper. -/
theorem readsLayouts_of_deeper
    (deeper : ∀ below, depth = below + 1 → ReadsLayouts below ∧ ReadsCells below) :
    ReadsLayouts depth := by
  intro ls site s reads begins
  obtain ⟨keyword, _, rfl, word, afterWord⟩ := reads.body.cons
  obtain ⟨_, _, rfl, typed, afterKind⟩ := afterWord.seq
  obtain ⟨kind, rfl, named⟩ := typed.id
  obtain ⟨_, _, rfl, optional, block⟩ := afterKind.seq
  obtain ⟨params, listed⟩ := arrives_optional_params (.layout site keyword kind) optional
  obtain ⟨below, opening, inside, closing, rfl, rfl, left, right, inner⟩ := block.block
  -- The braces of the layout take one level, so what is inside them lies deeper.
  obtain ⟨layouts, cells⟩ := deeper below rfl
  have kinds : (ReaderState.layoutKind site keyword).step kind =
      some (.opening (.layout site keyword kind) none) :=
    if_pos named
  have opens : (ReaderState.opening (.layout site keyword kind) params).step opening =
      some (.child (site.enter ⟨keyword, kind, params, opening⟩)) := by
    simp [ReaderState.step, ParamSite.step, left, ParamSite.enter]
  have place : (site.enter ⟨keyword, kind, params, opening⟩).child = layoutChild := by
    cases site <;> rfl
  have many : Reads below (.many (site.enter ⟨keyword, kind, params, opening⟩).child) inside := by
    rw [place]
    exact inner
  obtain ⟨last, children, through, there⟩ := arrives_children layouts cells many (restsIn_child _)
  have closes := step_of_restsIn there right
  rw [LayoutSite.close_enter] at closes
  exact ⟨_, .step (begins keyword word) (.step kinds (listed.trans
    (.step opens (through.trans (.one closes)))))⟩

/-- The reader gets through a cell if it gets through the layouts one level deeper. -/
theorem readsCells_of_deeper
    (deeper : ∀ below, depth = below + 1 → ReadsLayouts below ∧ ReadsCells below) :
    ReadsCells depth := by
  intro ls outer s reads rests place
  obtain ⟨keyword, _, rfl, word, afterWord⟩ := reads.body.cons
  obtain ⟨_, _, rfl, properties, block⟩ := afterWord.seq
  obtain ⟨more, listed⟩ := arrives_properties (.cell outer keyword) properties (fun _ => rfl) []
  obtain ⟨below, opening, inside, closing, rfl, rfl, left, right, inner⟩ := block.block
  obtain ⟨layouts, cells⟩ := deeper below rfl
  have begins : s.step keyword = some (.property (.cell outer keyword) []) := by
    have token : keyword.token = .keyword .cell := word
    rw [rests keyword (by rw [token]; rfl), OpenBlock.step_of_cell place token]
  have opens : (ReaderState.property (.cell outer keyword) more).step opening =
      some (.child (.cell outer ⟨keyword, more, opening⟩ [])) := by
    simp [ReaderState.step, PropertySite.step, PropertySite.leave, left, Token.isName]
  have many : Reads below (.many (OpenBlock.cell outer ⟨keyword, more, opening⟩ []).child) inside :=
    inner
  obtain ⟨last, children, through, there⟩ := arrives_children layouts cells many (restsIn_child _)
  have closes := step_of_restsIn there right
  rw [OpenBlock.addAll_eq (.cell outer ⟨keyword, more, opening⟩) fun _ _ => rfl] at closes
  exact ⟨_, .step begins (listed.trans (.step opens (through.trans (.one closes))))⟩

/-- The reader gets through layouts and cells of every depth. -/
theorem reads_blocks (depth : Nat) : ReadsLayouts depth ∧ ReadsCells depth := by
  induction depth with
  | zero =>
    -- No braces fit, so there is nothing to get through.
    have deeper : ∀ below, 0 = below + 1 → ReadsLayouts below ∧ ReadsCells below :=
      fun below equal => absurd equal.symm (Nat.succ_ne_zero below)
    exact ⟨readsLayouts_of_deeper deeper, readsCells_of_deeper deeper⟩
  | succ depth ih =>
    have deeper : ∀ below, depth + 1 = below + 1 → ReadsLayouts below ∧ ReadsCells below := by
      rintro below ⟨⟩
      exact ih
    exact ⟨readsLayouts_of_deeper deeper, readsCells_of_deeper deeper⟩

end Blocks

/-! ### Items -/

section Items

variable {depth : Nat} {ls : List Lexeme} {project : OpenProject}

/-- The reader gets through the layout that is the body of an item. -/
theorem arrives_body (item : OpenItem) (reads : Reads depth (.rule .layout) ls) :
    ∃ l, Arrives (.body item) ls (.itemEnd (item.fill l)) := by
  have begins : ∀ t : Lexeme, t.token = .keyword .layout →
      (ReaderState.body item).step t = some (.layoutKind (.body item) t) := by
    intro t word
    simp only [ReaderState.step, OpenItem.step, word]
  exact (reads_blocks depth).1 reads begins

theorem FilledItem.step_of_rightBrace (item : FilledItem) {t : Lexeme}
    (right : t.token = .mark .rightBrace) :
    (ReaderState.itemEnd item).step t = some (.item (item.close t)) := by
  simp only [ReaderState.step, FilledItem.step, right]

theorem Reads.settingsKeyword
    (reads : Reads depth
      (.either (.keyword .style) (.either (.keyword .mocks) (.keyword .colors))) ls) :
    ∃ kind keyword, ls = [keyword] ∧ keyword.token = .keyword (SettingsKind.keyword kind) := by
  rcases reads.either with word | reads
  · obtain ⟨keyword, rfl, token⟩ := word.terminal
    exact ⟨.style, keyword, rfl, token⟩
  · rcases reads.either with word | word
    · obtain ⟨keyword, rfl, token⟩ := word.terminal
      exact ⟨.mocks, keyword, rfl, token⟩
    · obtain ⟨keyword, rfl, token⟩ := word.terminal
      exact ⟨.colors, keyword, rfl, token⟩

theorem arrives_settings (project : OpenProject) (reads : Reads depth (.rule .settings) ls) :
    ∃ next, Arrives (.item project) ls (.item next) := by
  obtain ⟨_, _, rfl, word, block⟩ := reads.body.seq
  obtain ⟨kind, keyword, rfl, token⟩ := word.settingsKeyword
  obtain ⟨below, opening, inside, closing, rfl, rfl, left, right, inner⟩ := block.block
  have begins : (ReaderState.item project).step keyword =
      some (.settingsOpening project kind keyword) := by
    cases kind <;> simp only [ReaderState.step, OpenProject.step, token, SettingsKind.keyword]
  have opens : (ReaderState.settingsOpening project kind keyword).step opening =
      some (.property (.settings project ⟨kind, keyword, opening⟩) []) :=
    if_pos left
  obtain ⟨more, listed⟩ :=
    arrives_properties (.settings project ⟨kind, keyword, opening⟩) inner (fun _ => rfl) []
  have closes :
      (ReaderState.property (.settings project ⟨kind, keyword, opening⟩) more).step closing =
        some (.item (project.add (.settings ⟨⟨kind, keyword, opening⟩, more, closing⟩))) := by
    simp [ReaderState.step, PropertySite.step, PropertySite.leave, right, Token.isName]
  exact ⟨_, .step begins (.step opens (listed.trans (.one closes)))⟩

theorem arrives_screen (project : OpenProject) (reads : Reads depth (.rule .screen) ls) :
    ∃ next, Arrives (.item project) ls (.item next) := by
  obtain ⟨keyword, _, rfl, word, afterWord⟩ := reads.body.cons
  obtain ⟨_, _, rfl, first, afterName⟩ := afterWord.seq
  obtain ⟨name, rfl, named⟩ := first.id
  obtain ⟨_, _, rfl, optional, block⟩ := afterName.seq
  obtain ⟨params, listed⟩ := arrives_optional_params (.screen project keyword name) optional
  obtain ⟨below, opening, inside, closing, rfl, rfl, left, right, inner⟩ := block.block
  have token : keyword.token = .keyword .screen := word
  have begins : (ReaderState.item project).step keyword = some (.screenName project keyword) := by
    simp only [ReaderState.step, OpenProject.step, token]
  have names : (ReaderState.screenName project keyword).step name =
      some (.opening (.screen project keyword name) none) :=
    if_pos named
  have opens : (ReaderState.opening (.screen project keyword name) params).step opening =
      some (.body (.screen project ⟨keyword, name, params, opening⟩)) := by
    simp [ReaderState.step, ParamSite.step, left, ParamSite.enter]
  obtain ⟨l, body⟩ := arrives_body (.screen project ⟨keyword, name, params, opening⟩) inner
  have closes := FilledItem.step_of_rightBrace
    (OpenItem.fill (.screen project ⟨keyword, name, params, opening⟩) l) right
  exact ⟨_, .step begins (.step names (listed.trans (.step opens (body.trans (.one closes)))))⟩

/-- A definition of either kind, up to its opening brace. -/
theorem arrives_definition_head (project : OpenProject) {define kind name opening : Lexeme}
    (word : define.token = .keyword .define)
    (kinds : kind.token = .keyword .componentKind ∨ kind.token = .keyword .layoutKind)
    (quoted : name.token.isString = true) (left : opening.token = .mark .leftBrace) :
    Arrives (.item project) [define, kind, name, opening]
      (.body (.ofDefinition project ⟨define, kind, name, opening⟩)) := by
  have begins : (ReaderState.item project).step define = some (.definitionKind project define) := by
    simp only [ReaderState.step, OpenProject.step, word]
  exact .step begins (.step (if_pos kinds) (.step (if_pos quoted) (.one (if_pos left))))

theorem arrives_componentBody (project : OpenProject) (head : DefinitionHead)
    (reads : Reads depth (.either (.rule .layout) (.rule .component)) ls) {closing : Lexeme}
    (right : closing.token = .mark .rightBrace) :
    ∃ next, Arrives (.body (.componentDefinition project head)) (ls ++ [closing]) (.item next) := by
  rcases reads.either with layout | component
  · obtain ⟨l, body⟩ := arrives_body (.componentDefinition project head) layout
    exact ⟨_, body.trans (.one (FilledItem.step_of_rightBrace _ right))⟩
  · have begins : ∀ t : Lexeme, t.token = .keyword .component →
        (ReaderState.body (.componentDefinition project head)).step t =
          some (.componentKind (.body project head) t) := by
      intro t word
      simp only [ReaderState.step, OpenItem.step, word]
    obtain ⟨keyword, kind, more, body⟩ := arrives_component component begins
    have closes : (ReaderState.property (.component (.body project head) keyword kind) more).step
        closing = some (.item ((FilledItem.componentDefinition project head
          (.component ⟨keyword, kind, more⟩)).close closing)) := by
      simp [ReaderState.step, PropertySite.step, PropertySite.leave, ComponentSite.step,
        FilledItem.step, right, Token.isName]
    exact ⟨_, body.trans (.one closes)⟩

theorem arrives_definition (project : OpenProject) (reads : Reads depth (.rule .definition) ls) :
    ∃ next, Arrives (.item project) ls (.item next) := by
  obtain ⟨define, _, rfl, word, kinds⟩ := reads.body.cons
  rcases kinds.either with component | layout
  · obtain ⟨below, kind, name, opening, inside, closing, rfl, capital, quoted, left, right,
      inner⟩ := component.titled
    -- The word for the kind decides what the body may be.
    have other : kind.token ≠ .keyword .layoutKind := by
      rw [capital]
      decide
    have head := arrives_definition_head project word (.inl capital) quoted left
    rw [OpenItem.ofDefinition, if_neg other] at head
    obtain ⟨next, body⟩ := arrives_componentBody project _ inner right
    exact ⟨next, head.trans body⟩
  · obtain ⟨below, kind, name, opening, inside, closing, rfl, capital, quoted, left, right,
      inner⟩ := layout.titled
    have head := arrives_definition_head project word (.inr capital) quoted left
    rw [OpenItem.ofDefinition, if_pos capital] at head
    obtain ⟨l, body⟩ := arrives_body _ inner
    exact ⟨_, head.trans (body.trans (.one (FilledItem.step_of_rightBrace _ right)))⟩

/-- The reader gets through every project. -/
theorem arrives_project (reads : Reads depth (.rule .project) ls) :
    ∃ project, Arrives .start ls (.nothing project) := by
  obtain ⟨below, keyword, name, opening, inside, closing, rfl, word, quoted, left, right, inner⟩ :=
    reads.body.titled
  let At : ReaderState → Prop := fun s => ∃ project, s = .item project
  have one : ∀ {row : List Lexeme} {s : ReaderState}, Reads below projectItem row → At s →
      ∃ next, Arrives s row next ∧ At next := by
    rintro row s item ⟨project, rfl⟩
    have arrives : ∃ next, Arrives (.item project) row (.item next) := by
      rcases item.either with settings | item
      · exact arrives_settings project settings
      · rcases item.either with definition | screen
        · exact arrives_definition project definition
        · exact arrives_screen project screen
    obtain ⟨next, arrives⟩ := arrives
    exact ⟨_, arrives, next, rfl⟩
  obtain ⟨last, items, project, rfl⟩ :=
    arrives_many At one inner ⟨⟨⟨keyword, name, opening⟩, []⟩, rfl⟩
  have closes : (ReaderState.item project).step closing =
      some (.nothing ⟨project.head, project.items, closing⟩) := by
    simp only [ReaderState.step, OpenProject.step, right]
  exact ⟨_, .step (if_pos word) (.step (if_pos quoted) (.step (if_pos left)
    (items.trans (.one closes))))⟩

end Items

end Wireframe
