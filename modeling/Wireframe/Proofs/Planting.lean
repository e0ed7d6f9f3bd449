import Wireframe.Proofs.Outline
import Wireframe.Proofs.ProjectBlocks

/-!
# Planting a component

One more component may be written in front of the brace that closes a layout or cell. The reader
gets to the brace as before, finds the component, and then goes on as before with one child more.
That it closes a block with this brace need not be followed through the reader: else grafting in
front of the brace would change nothing, but the block is there to be grown.

## Main definitions

* `Graft.one` — a single component in front of a single brace.

## Main results

* `ReaderState.run_append_eq_ok_iff` — a run up to a token and behind it.
* `ProjectBlock.graft_eq_nil_of_eq` — what changes no project is grafted into none of its blocks.
* `ProjectBlock.ofLexemes_planted` — a row with one more component is read to the grown project.
-/

namespace Wireframe

/-! ### Runs in two parts -/

namespace ReaderState

/-- A run comes to an end exactly if it arrives at any token of the row, gets through it, and comes
to an end behind it. -/
theorem run_append_eq_ok_iff {state : ReaderState} {previous : Option Lexeme}
    {before after : List Lexeme} {t : Lexeme} {project : ProjectBlock} :
    state.run previous (before ++ t :: after) = .ok project ↔
      ∃ middle next, Arrives state before middle ∧ middle.step t = some next ∧
        next.run (some t) after = .ok project := by
  -- By induction on what is in front of the token. A refused step would have ended the run.
  induction before generalizing state previous with
  | nil =>
    rw [List.nil_append, run]
    constructor
    · intro ran
      cases step : state.step t with
      | none =>
        rw [step] at ran
        contradiction
      | some next =>
        rw [step] at ran
        exact ⟨state, next, .refl state, step, ran⟩
    · rintro ⟨middle, next, arrives, step, ran⟩
      cases arrives with
      | refl => rwa [step]
  | cons l before ih =>
    rw [List.cons_append, run]
    constructor
    · intro ran
      cases first : state.step l with
      | none =>
        rw [first] at ran
        contradiction
      | some second =>
        rw [first] at ran
        obtain ⟨middle, next, arrives, step, rest⟩ := ih.mp ran
        exact ⟨middle, next, .step first arrives, step, rest⟩
    · rintro ⟨middle, next, arrives, step, rest⟩
      cases arrives with
      | step first arrives =>
        rw [first]
        exact ih.mpr ⟨middle, next, arrives, step, rest⟩

theorem block?_grafted (graft : Graft) (state : ReaderState) :
    (state.grafted graft).block? = state.block?.map (OpenBlock.grafted graft) := by
  cases state with
  | property site properties =>
    match site with
    | .component (.child outer) keyword kind =>
      have added := outer.grafted_add graft (.component ⟨keyword, kind, properties⟩)
      rw [Block.grafted_component] at added
      exact congrArg some added.symm
    | .component (.body _ _) _ _ | .settings _ _ | .cell _ _ | .params _ _ => rfl
  | _ => rfl

end ReaderState

/-- Tokens other than braces do not change what is nested too deep. -/
theorem firstTooDeep?_append {more : List Lexeme}
    (flat : ∀ l ∈ more, l.token ≠ .mark .leftBrace ∧ l.token ≠ .mark .rightBrace) (depth : Nat)
    (before after : List Lexeme) :
    firstTooDeep? depth (before ++ (more ++ after)) = firstTooDeep? depth (before ++ after) := by
  induction before generalizing depth with
  | nil =>
    induction more with
    | nil => rfl
    | cons l more ih =>
      obtain ⟨⟨left, right⟩, others⟩ := List.forall_mem_cons.mp flat
      rw [List.nil_append, List.cons_append, firstTooDeep?_cons_other _ left right]
      exact ih others
  | cons l before ih =>
    simp only [List.cons_append, firstTooDeep?, ih]

/-! ### What is grafted -/

/-- A single component in front of a single brace. -/
def Graft.one (brace : Lexeme) (c : ComponentBlock) : Graft :=
  fun l => if l = brace then [.component c] else []

theorem Graft.one_self (brace : Lexeme) (c : ComponentBlock) :
    Graft.one brace c brace = [.component c] :=
  if_pos rfl

theorem Graft.one_of_ne {brace l : Lexeme} (other : l ≠ brace) (c : ComponentBlock) :
    Graft.one brace c l = [] :=
  if_neg other

theorem Graft.one_eq_nil_of_mem {before after : List Lexeme} {brace l : Lexeme}
    (distinct : (before ++ brace :: after).Nodup) (c : ComponentBlock)
    (other : l ∈ before ∨ l ∈ after) : Graft.one brace c l = [] := by
  obtain ⟨-, rest, apart⟩ := List.nodup_append.mp distinct
  refine Graft.one_of_ne ?_ c
  rintro rfl
  rcases other with ahead | behind
  · exact apart l ahead l List.mem_cons_self rfl
  · exact (List.nodup_cons.mp rest).1 behind

/-- The body of an item. -/
def Item.body? : Item → Option Block
  | .settings _ => none
  | .definition (.component _ body _) => some body.block
  | .definition (.layout _ l _) => some l.toTree
  | .screen block => some block.layout.toTree

theorem Item.body?_grafted (graft : Graft) (item : Item) :
    (item.grafted graft).body? = item.body?.map (Block.grafted graft) := by
  match item with
  | .settings _ => rfl
  | .definition (.component _ (.layout l) _) | .definition (.layout _ l _) =>
    exact congrArg some (Block.grafted_toTree graft l).symm
  | .definition (.component _ (.component c) _) =>
    exact congrArg some (Block.grafted_component graft c).symm
  | .screen block => exact congrArg some (Block.grafted_toTree graft block.layout).symm

theorem NumberedItem.body?_erase (item : NumberedItem) :
    item.erase.body? = item.body?.map NumberedBlock.erase := by
  cases item with
  | settings => rfl
  | componentDefinition t head body closing => exact congrArg some (erase_block body).symm
  | layoutDefinition t head l closing | screen t head l closing =>
    exact congrArg some (erase_toTree l).symm

/-- What changes no block is grafted into none of the blocks inside it. -/
theorem graft_eq_nil_of_mem_walk {graft : Graft} {n m : NumberedBlock}
    (same : Block.grafted graft (NumberedBlock.erase n) =
      Block.grafted .nothing (NumberedBlock.erase n))
    (reached : m ∈ n.walk) {l : Lexeme} (closing : NumberedBlock.closing? m = some l) :
    graft l = [] := by
  -- As many children come out on both sides, so nothing is put behind them.
  have inside : ∀ {trees : List NumberedBlock} {extra : List Block},
      (trees.map NumberedBlock.erase).map (Block.grafted graft) ++ extra =
        (trees.map NumberedBlock.erase).map (Block.grafted .nothing) ++ [] →
      extra = [] ∧ ∀ c ∈ trees, Block.grafted graft (NumberedBlock.erase c) =
        Block.grafted .nothing (NumberedBlock.erase c) := by
    intro trees extra equal
    obtain ⟨children, rest⟩ := List.append_inj equal (by simp)
    rw [List.map_map, List.map_map] at children
    exact ⟨rest, List.map_inj_left.mp children⟩
  induction n using Tree.induction_children with
  | node n ih =>
    have own : (∀ l, NumberedBlock.closing? n = some l → graft l = []) ∧
        ∀ c ∈ n.children, Block.grafted graft (NumberedBlock.erase c) =
          Block.grafted .nothing (NumberedBlock.erase c) := by
      cases n with
      | component c => exact ⟨nofun, fun _ child => absurd child List.not_mem_nil⟩
      | layout k trees =>
        rw [NumberedBlock.erase, Tree.map_layout, Block.grafted_layout,
          Block.grafted_layout] at same
        obtain ⟨empty, below⟩ := inside (Tree.layout.inj same).2
        refine ⟨fun l closes => ?_, below⟩
        obtain rfl := Option.some.inj closes
        exact empty
      | cell k trees =>
        rw [NumberedBlock.erase, Tree.map_cell, Block.grafted_cell, Block.grafted_cell] at same
        obtain ⟨empty, below⟩ := inside (Tree.cell.inj same).2
        refine ⟨fun l closes => ?_, below⟩
        obtain rfl := Option.some.inj closes
        exact empty
    rcases Tree.mem_walk_iff.mp reached with rfl | ⟨c, child, held⟩
    · exact own.1 l closing
    · exact ih c child (own.2 c child) held

namespace ProjectBlock

variable {project : ProjectBlock} {m : NumberedBlock}

/-- What changes no project is grafted into none of its blocks. -/
theorem graft_eq_nil_of_eq {graft : Graft} (same : project.grafted graft = project.bare)
    (inside : m ∈ project.blocks) {l : Lexeme} (closing : NumberedBlock.closing? m = some l) :
    graft l = [] := by
  obtain ⟨item, listed, body, held, reached⟩ := mem_blocks.mp inside
  have items : item.erase.grafted graft = item.erase.grafted .nothing :=
    List.map_inj_left.mp (congrArg ProjectBlock.items same) item.erase (erase_mem_items listed)
  have bodies := congrArg Item.body? items
  rw [Item.body?_grafted, Item.body?_grafted, item.body?_erase, held] at bodies
  exact graft_eq_nil_of_mem_walk (Option.some.inj bodies) reached closing

/-! ### Reading the row with the component -/

section Planted

variable {graft : Graft} {before after : List Lexeme} {brace : Lexeme}
  (free : ∀ l, l ∈ before ∨ l ∈ after → graft l = [])

include free

/-- The reader gets to the brace of a block, which closes a block there, and goes on behind it. -/
theorem exists_close (read : ofLexemes (before ++ brace :: after) = .ok project)
    (inside : m ∈ project.blocks) (closing : NumberedBlock.closing? m = some brace)
    (grows : graft brace ≠ []) :
    ∃ middle block, Arrives .start before middle ∧ middle.block? = some block ∧
      brace.token = .mark .rightBrace ∧
      (block.close brace).run (some brace) after = .ok project := by
  obtain ⟨-, ran⟩ := ofLexemes_eq_ok_iff.mp read
  obtain ⟨middle, next, arrives, step, rest⟩ := ReaderState.run_append_eq_ok_iff.mp ran
  have closes : middle.Closes brace := by
    by_contra other
    -- Else all is read as before, whatever is put in front of the brace.
    have ahead := arrives.grafted fun l held => free l (.inl held)
    have through : (middle.grafted graft).step brace.bare = some (next.grafted graft) := by
      rw [middle.step_grafted fun closes => absurd closes other, step]
      rfl
    have behind := next.run_grafted (some brace) fun l held => free l (.inr held)
    rw [rest] at behind
    have grown : ReaderState.start.run none ((before ++ brace :: after).map Lexeme.bare) =
        .ok (project.grafted graft) := by
      rw [List.map_append, List.map_cons]
      exact ReaderState.run_append_eq_ok_iff.mpr ⟨_, _, ahead, through, behind⟩
    have same : ReaderState.start.run none ((before ++ brace :: after).map Lexeme.bare) =
        graftedOutcome .nothing (ReaderState.start.run none (before ++ brace :: after)) :=
      ReaderState.start.run_grafted none fun _ _ => rfl
    rw [ran] at same
    exact grows (graft_eq_nil_of_eq (Except.ok.inj (grown.symm.trans same)) inside closing)
  obtain ⟨block, found⟩ := Option.isSome_iff_exists.mp closes.block
  have closed := step_of_restsIn (ReaderState.restsIn_of_block? found) closes.brace
  obtain rfl : block.close brace = next := Option.some.inj (closed.symm.trans step)
  exact ⟨middle, block, arrives, found, closes.brace, rest⟩

/-- A row with one more component in front of the brace that closes a block is read to the project
grown by that component. -/
theorem ofLexemes_planted {keyword kind : Lexeme}
    (read : ofLexemes (before ++ brace :: after) = .ok project) (inside : m ∈ project.blocks)
    (closing : NumberedBlock.closing? m = some brace)
    (grows : graft brace = [.component ⟨keyword.bare, kind.bare, []⟩])
    (word : keyword.token = .keyword .component) (named : kind.token.isName = true) :
    ofLexemes ((before ++ ([keyword, kind] ++ brace :: after)).map Lexeme.bare) =
      .ok (project.grafted graft) := by
  obtain ⟨flat, -⟩ := ofLexemes_eq_ok_iff.mp read
  have shallow : firstTooDeep? 0 ((before ++ ([keyword, kind] ++ brace :: after)).map Lexeme.bare) =
      none := by
    have noBrace : ∀ l ∈ [keyword, kind],
        l.token ≠ .mark .leftBrace ∧ l.token ≠ .mark .rightBrace := by
      have other : ∀ sign, kind.token ≠ .mark sign := by
        intro sign same
        rw [same] at named
        contradiction
      simp [word, other]
    rw [firstTooDeep?_bare, firstTooDeep?_append noBrace, flat]
    rfl
  refine ofLexemes_eq_ok_iff.mpr ⟨shallow, ?_⟩
  obtain ⟨middle, block, arrives, found, right, rest⟩ :=
    exists_close free read inside closing (by simp [grows])
  have ahead := arrives.grafted fun l held => free l (.inl held)
  have rests : RestsIn (middle.grafted graft) (block.grafted graft) := by
    refine ReaderState.restsIn_of_block? ?_
    rw [ReaderState.block?_grafted, found]
    rfl
  -- The component opens where the reader is at rest, and the brace closes the block behind it.
  have opens : (middle.grafted graft).step keyword.bare =
      some (.componentKind (.child (block.grafted graft)) keyword.bare) := by
    rw [rests keyword.bare (by rw [Lexeme.token_bare, word]; rfl)]
    exact OpenBlock.step_of_component _ word
  have names : (ReaderState.componentKind (.child (block.grafted graft)) keyword.bare).step
      kind.bare = some (.property (.component (.child (block.grafted graft)) keyword.bare kind.bare)
        []) :=
    if_pos named
  have closed : (ReaderState.property (.component (.child (block.grafted graft)) keyword.bare
      kind.bare) []).step brace.bare =
      some (((block.grafted graft).add (.component ⟨keyword.bare, kind.bare, []⟩)).close
        brace.bare) :=
    step_of_restsIn (restsIn_component _ _ _ _) right
  have behind := (block.close brace).run_grafted (some brace) fun l held => free l (.inr held)
  rw [rest, block.grafted_close, grows] at behind
  have row : (before ++ ([keyword, kind] ++ brace :: after)).map Lexeme.bare =
      (before.map Lexeme.bare ++ [keyword.bare, kind.bare]) ++
        brace.bare :: after.map Lexeme.bare := by
    simp
  rw [row]
  exact ReaderState.run_append_eq_ok_iff.mpr
    ⟨_, _, ahead.trans (.step opens (.one names)), closed, behind⟩

end Planted

end ProjectBlock

end Wireframe
