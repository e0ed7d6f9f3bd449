import Wireframe.Proofs.Pointing

/-!
# Where a row of tokens stops being a project

Whatever the reader has read can be continued to a project: every open block can be closed. So the
reader stops right behind the longest beginning of a project, and its fault blames the first token
that is not a part of it, or the end of the tokens if all of them are. Only a comma between
parameters is given back if no parameter follows it. The comma is blamed then, although a project
may well go on behind it.

## Main definitions

* `Viable`, `LongestViable` — the beginnings of projects, and the longest one in a row of tokens.
* `NestsWithin` — blocks are nowhere open more than so many at a time.
* `Diagnostic.Blames` — a diagnostic blames a token, or the end of the tokens.
* `faultIndex` — the token that is blamed, given the longest beginning.

## Main results

* `firstTooDeep?_eq_none_iff` — the nesting check in terms of the braces in every part.
* `ReaderState.exists_completion` — every state of the reader leads to a project.
* `viable_iff` — the beginnings of projects are what the reader gets through.
* `syntaxFault_blames` — the token that is blamed, for every row of tokens.
-/

namespace Wireframe

/-! ### Beginnings of projects -/

/-- A row of tokens is the beginning of a project. -/
def Viable (ts : List Token) : Prop :=
  ∃ more, Derivable (.rule .project) (ts ++ more)

/-- The first `n` tokens are the longest beginning of a project in a row of tokens. -/
structure LongestViable (ts : List Token) (n : Nat) : Prop where
  within : n ≤ ts.length
  viable : Viable (ts.take n)
  longest : ∀ k ≤ ts.length, Viable (ts.take k) → k ≤ n

/-- A beginning of a project is its own longest beginning. -/
theorem Viable.longestViable {ts : List Token} (viable : Viable ts) :
    LongestViable ts ts.length where
  within := Nat.le_refl _
  viable := by rwa [List.take_length]
  longest := fun _ within _ => within

/-- A row of tokens has one longest beginning of a project. -/
theorem LongestViable.unique {ts : List Token} {n m : Nat} (first : LongestViable ts n)
    (second : LongestViable ts m) : n = m :=
  Nat.le_antisymm (second.longest n first.within first.viable)
    (first.longest m second.within second.viable)

/-! ### Nesting -/

/-- In no part of a row of tokens are there more than `limit` opening braces beyond the closing
ones. -/
def NestsWithin (limit : Nat) (ts : List Token) : Prop :=
  ∀ part, part <:+: ts →
    part.count (.mark .leftBrace) ≤ part.count (.mark .rightBrace) + limit

/-- The same behind `depth` open blocks, for the parts from the start on. -/
def OpensWithin (limit depth : Nat) (ts : List Token) : Prop :=
  ∀ part, part <+: ts →
    depth + part.count (.mark .leftBrace) ≤ part.count (.mark .rightBrace) + limit

section Nesting

variable {limit depth : Nat} {t : Token} {ts : List Token}

theorem OpensWithin.room (within : OpensWithin limit depth ts) : depth ≤ limit := by
  simpa using within [] List.nil_prefix

theorem OpensWithin.mono (within : OpensWithin limit depth ts) {fewer : Nat}
    (less : fewer ≤ depth) : OpensWithin limit fewer ts := by
  intro part front
  have bound := within part front
  omega

theorem NestsWithin.opensWithin (nests : NestsWithin limit ts) : OpensWithin limit 0 ts :=
  fun part front => by simpa using nests part front.isInfix

theorem nestsWithin_cons_iff :
    NestsWithin limit (t :: ts) ↔ OpensWithin limit 0 (t :: ts) ∧ NestsWithin limit ts := by
  simp only [NestsWithin, OpensWithin, List.infix_cons_iff, Nat.zero_add, or_imp, forall_and]

theorem opensWithin_cons_iff :
    OpensWithin limit depth (t :: ts) ↔ depth ≤ limit ∧ ∀ part, part <+: ts →
      depth + (t :: part).count (.mark .leftBrace) ≤
        (t :: part).count (.mark .rightBrace) + limit := by
  constructor
  · intro within
    refine ⟨within.room, fun part front => ?_⟩
    exact within (t :: part) (List.cons_prefix_cons.mpr ⟨rfl, front⟩)
  · rintro ⟨room, within⟩ part front
    cases part with
    | nil => simpa using room
    | cons first rest =>
      obtain ⟨rfl, behind⟩ := List.cons_prefix_cons.mp front
      exact within rest behind

theorem opensWithin_cons_other (notLeft : t ≠ .mark .leftBrace) (notRight : t ≠ .mark .rightBrace) :
    OpensWithin limit depth (t :: ts) ↔ OpensWithin limit depth ts := by
  simp only [opensWithin_cons_iff, List.count_cons_of_ne notLeft, List.count_cons_of_ne notRight]
  exact ⟨And.right, fun within => ⟨OpensWithin.room within, within⟩⟩

theorem opensWithin_cons_leftBrace :
    OpensWithin limit depth (.mark .leftBrace :: ts) ↔ OpensWithin limit (depth + 1) ts := by
  have other : Token.mark .leftBrace ≠ .mark .rightBrace := by decide
  simp only [opensWithin_cons_iff, List.count_cons_self, List.count_cons_of_ne other]
  constructor
  · rintro ⟨-, within⟩ part front
    have bound := within part front
    omega
  · intro within
    refine ⟨Nat.le_of_succ_le within.room, fun part front => ?_⟩
    have bound := within part front
    omega

/-- A closing brace too many leaves no block open, so that what follows has to fit on its own. -/
theorem opensWithin_cons_rightBrace (room : depth ≤ limit) (nests : NestsWithin limit ts) :
    OpensWithin limit depth (.mark .rightBrace :: ts) ↔ OpensWithin limit (depth - 1) ts := by
  have other : Token.mark .rightBrace ≠ .mark .leftBrace := by decide
  simp only [opensWithin_cons_iff, List.count_cons_self, List.count_cons_of_ne other]
  constructor
  · rintro ⟨-, within⟩ part front
    have bound := within part front
    have alone := nests.opensWithin part front
    omega
  · intro within
    refine ⟨room, fun part front => ?_⟩
    have bound := within part front
    omega

/-- A row of tokens passes the nesting check if no part of it opens too many blocks, and the parts
from the start on none beyond those that are open already. -/
theorem firstTooDeep?_eq_none_iff {ls : List Lexeme} (room : depth ≤ nestingLimit) :
    firstTooDeep? depth ls = none ↔
      OpensWithin nestingLimit depth (ls.map Lexeme.token) ∧
        NestsWithin nestingLimit (ls.map Lexeme.token) := by
  induction ls generalizing depth with
  | nil =>
    simp only [firstTooDeep?, List.map_nil, true_iff]
    constructor
    · intro part front
      simpa [List.prefix_nil.mp front] using room
    · intro part inside
      simp [List.infix_nil.mp inside]
  | cons l ls ih =>
    rw [List.map_cons, nestsWithin_cons_iff, ← and_assoc]
    by_cases left : l.token = .mark .leftBrace
    · rw [firstTooDeep?_cons_leftBrace depth left, left, opensWithin_cons_leftBrace,
        opensWithin_cons_leftBrace]
      split
      next full =>
        refine iff_of_false (Option.some_ne_none l) fun within => ?_
        exact Nat.not_succ_le_self _ (Nat.le_trans within.1.1.room full)
      next =>
        rw [ih (by omega)]
        refine and_congr_left fun _ => ⟨fun within => ⟨within, within.mono ?_⟩, And.left⟩
        exact Nat.succ_le_succ (Nat.zero_le depth)
    · by_cases right : l.token = .mark .rightBrace
      · rw [firstTooDeep?_cons_rightBrace depth right, right, ih (by omega)]
        refine and_congr_left fun nests => ?_
        rw [opensWithin_cons_rightBrace room nests,
          opensWithin_cons_rightBrace (Nat.zero_le _) nests]
        exact ⟨fun within => ⟨within, nests.opensWithin⟩, And.left⟩
      · rw [firstTooDeep?_cons_other depth left right, ih room, opensWithin_cons_other left right,
          opensWithin_cons_other left right]
        exact and_congr_left fun nests => ⟨fun within => ⟨within, nests.opensWithin⟩, And.left⟩

/-- A row of tokens passes the nesting check if no part of it opens too many blocks. -/
theorem firstTooDeep?_zero_eq_none_iff {ls : List Lexeme} :
    firstTooDeep? 0 ls = none ↔ NestsWithin nestingLimit (ls.map Lexeme.token) :=
  (firstTooDeep?_eq_none_iff (Nat.zero_le _)).trans
    ⟨And.right, fun nests => ⟨nests.opensWithin, nests⟩⟩

end Nesting

/-! ### Completing a project -/

/-- A token that stands nowhere. -/
def Token.alone (t : Token) : Lexeme :=
  ⟨t, {}, {}⟩

/-- The tokens read so far can be continued to a project. -/
def ReaderState.Completable (s : ReaderState) : Prop :=
  ∃ ls project, Arrives s ls (.nothing project)

section Completion

/-- A state that can be continued can be reached by one more token. -/
theorem ReaderState.Completable.before {s next : ReaderState} (completable : next.Completable)
    (t : Token) (step : s.step t.alone = some next) : s.Completable := by
  obtain ⟨ls, project, arrives⟩ := completable
  exact ⟨t.alone :: ls, project, .step step arrives⟩

theorem completable_item (project : OpenProject) : (ReaderState.item project).Completable :=
  ⟨[(Token.mark .rightBrace).alone], _, .one rfl⟩

theorem completable_itemEnd (item : FilledItem) : (ReaderState.itemEnd item).Completable :=
  (completable_item _).before (.mark .rightBrace) rfl

/-- A block can be closed, and then the one around it. -/
theorem completable_close (block : OpenBlock) (children : List Block) :
    ((block.addAll children).close (Token.mark .rightBrace).alone).Completable := by
  -- Closing a block adds a child to the one around it, so the children are left open.
  induction block generalizing children with
  | body item head before =>
    rw [OpenBlock.addAll_eq (.body item head) fun _ _ => rfl]
    exact completable_itemEnd _
  | layout outer head before ih =>
    rw [OpenBlock.addAll_eq (.layout outer head) fun _ _ => rfl]
    exact (ih [_]).before (.mark .rightBrace) rfl
  | cell outer head before ih =>
    rw [OpenBlock.addAll_eq (.cell outer head) fun _ _ => rfl]
    exact (ih [_]).before (.mark .rightBrace) rfl

theorem completable_child (block : OpenBlock) : (ReaderState.child block).Completable :=
  (completable_close block []).before (.mark .rightBrace) rfl

theorem completable_layoutKind (site : LayoutSite) (keyword : Lexeme) :
    (ReaderState.layoutKind site keyword).Completable := by
  have opening : (ReaderState.opening (.layout site keyword (Token.name "x").alone)
      none).Completable :=
    (completable_child _).before (.mark .leftBrace) rfl
  exact opening.before (.name "x") rfl

theorem completable_body (item : OpenItem) : (ReaderState.body item).Completable :=
  (completable_layoutKind (.body item) _).before (.keyword .layout) rfl

theorem completable_opening (site : ParamSite) (params : Option ParamList) :
    (ReaderState.opening site params).Completable := by
  have inside : (site.enter params (Token.mark .leftBrace).alone).Completable := by
    cases site with
    | screen => exact completable_body _
    | layout => exact completable_child _
  exact inside.before (.mark .leftBrace) rfl

theorem completable_property (site : PropertySite) (properties : List WrittenProperty) :
    (ReaderState.property site properties).Completable := by
  cases site with
  | settings => exact (completable_item _).before (.mark .rightBrace) rfl
  | component site keyword kind =>
    cases site with
    | body => exact (completable_item _).before (.mark .rightBrace) rfl
    | child outer =>
      -- The component has no end of its own, so the block around it is closed at once.
      have rests := restsIn_component outer keyword kind properties
      exact (completable_close _ []).before (.mark .rightBrace) (rests _ rfl)
  | cell => exact (completable_child _).before (.mark .leftBrace) rfl
  | params site => exact (completable_opening site _).before (.mark .rightParen) rfl

theorem completable_colon (site : PropertySite) (properties : List WrittenProperty)
    (name : Lexeme) : (ReaderState.colon site properties name).Completable := by
  have value : (ReaderState.value site properties name).Completable :=
    (completable_property site _).before (.name "x") rfl
  exact value.before (.mark .colon) rfl

theorem completable_definitionName (project : OpenProject) (define kind : Lexeme) :
    (ReaderState.definitionName project define kind).Completable := by
  have opening : (ReaderState.definitionOpening project define kind
      (Token.string "x").alone).Completable :=
    (completable_body _).before (.mark .leftBrace) rfl
  exact opening.before (.string "x") rfl

/-- Every state of the reader leads to a project. -/
theorem ReaderState.exists_completion (s : ReaderState) : s.Completable := by
  have named : ∀ keyword, (ReaderState.projectName keyword).Completable := fun keyword => by
    have opening : (ReaderState.projectOpening keyword (Token.string "x").alone).Completable :=
      (completable_item _).before (.mark .leftBrace) rfl
    exact opening.before (.string "x") rfl
  cases s with
  | start => exact (named _).before (.keyword .project) rfl
  | projectName keyword => exact named keyword
  | projectOpening => exact (completable_item _).before (.mark .leftBrace) rfl
  | item project => exact completable_item project
  | settingsOpening => exact (completable_property _ []).before (.mark .leftBrace) rfl
  | definitionKind project define =>
    exact (completable_definitionName project define _).before (.keyword .componentKind) rfl
  | definitionName project define kind => exact completable_definitionName project define kind
  | definitionOpening => exact (completable_body _).before (.mark .leftBrace) rfl
  | screenName => exact (completable_opening _ none).before (.name "x") rfl
  | layoutKind site keyword => exact completable_layoutKind site keyword
  | componentKind => exact (completable_property _ []).before (.name "x") rfl
  | opening site params => exact completable_opening site params
  | property site properties => exact completable_property site properties
  | colon site properties name => exact completable_colon site properties name
  | value site => exact (completable_property site _).before (.name "x") rfl
  | param => exact (completable_colon _ _ _).before (.name "x") rfl
  | body item => exact completable_body item
  | child block => exact completable_child block
  | itemEnd item => exact completable_itemEnd item
  | nothing project => exact ⟨[], project, .refl _⟩

end Completion

/-! ### What the reader gets through -/

section Through

variable {s a b : ReaderState} {xs ys ls : List Lexeme} {t : Lexeme}

/-- Reading is deterministic. -/
theorem Arrives.unique (first : Arrives s ls a) (second : Arrives s ls b) : a = b := by
  induction first with
  | refl s =>
    cases second
    rfl
  | step one _ ih =>
    cases second with
    | step other rest =>
      obtain rfl := Option.some.inj (one.symm.trans other)
      exact ih rest

theorem Arrives.split (arrives : Arrives s (xs ++ ys) b) :
    ∃ a, Arrives s xs a ∧ Arrives a ys b := by
  induction xs generalizing s with
  | nil => exact ⟨s, .refl s, arrives⟩
  | cons t xs ih =>
    cases arrives with
    | step one rest =>
      obtain ⟨a, first, second⟩ := ih rest
      exact ⟨a, .step one first, second⟩

/-- A state that cannot take a token is not followed by one. -/
theorem Arrives.step_of_append (first : Arrives s xs a) (all : Arrives s (xs ++ t :: ys) b) :
    ∃ next, a.step t = some next := by
  obtain ⟨a', same, others⟩ := all.split
  obtain rfl := first.unique same
  cases others with
  | step one _ => exact ⟨_, one⟩

/-- What is read from the start on is derived by the grammar. -/
theorem derivable_of_run {project : ProjectBlock}
    (ran : ReaderState.start.run none ls = .ok project) :
    Derivable (.rule .project) (ls.map Lexeme.token) := by
  have start : ReaderState.start.Sound := trivial
  obtain ⟨spells, ws, whole, fits⟩ := ReaderState.run_sound start ran
  obtain rfl : project.inWrittenOrder = ws := whole
  rw [← map_token_of_fits fits]
  exact spells

/-- The grammar derives exactly what leads the reader to a project. -/
theorem derivable_iff :
    Derivable (.rule .project) (ls.map Lexeme.token) ↔
      ∃ project, Arrives .start ls (.nothing project) := by
  constructor
  · rintro ⟨depth, derived⟩
    exact arrives_project derived
  · rintro ⟨project, arrives⟩
    exact derivable_of_run (arrives.run rfl none)

theorem map_token_alone (ts : List Token) : (ts.map Token.alone).map Lexeme.token = ts := by
  rw [List.map_map]
  exact List.map_id ts

/-- The beginnings of projects are what the reader gets through. -/
theorem viable_iff : Viable (ls.map Lexeme.token) ↔ ∃ s, Arrives .start ls s := by
  constructor
  · rintro ⟨more, derived⟩
    rw [← map_token_alone more, ← List.map_append, derivable_iff] at derived
    obtain ⟨project, arrives⟩ := derived
    obtain ⟨s, front, -⟩ := arrives.split
    exact ⟨s, front⟩
  · rintro ⟨s, arrives⟩
    obtain ⟨more, project, rest⟩ := s.exists_completion
    refine ⟨more.map Lexeme.token, ?_⟩
    rw [← List.map_append, derivable_iff]
    exact ⟨project, arrives.trans rest⟩

/-- Nothing can follow a project. -/
theorem Derivable.eq_nil_of_append {rest : List Token}
    (whole : Derivable (.rule .project) (ls.map Lexeme.token))
    (longer : Derivable (.rule .project) (ls.map Lexeme.token ++ rest)) : rest = [] := by
  rw [← map_token_alone rest, ← List.map_append, derivable_iff] at longer
  obtain ⟨project, arrives⟩ := derivable_iff.mp whole
  obtain ⟨other, all⟩ := longer
  cases rest with
  | nil => rfl
  | cons t rest =>
    obtain ⟨next, step⟩ := arrives.step_of_append all
    contradiction

/-- A row of tokens behind which no project goes on is its own longest beginning. -/
theorem longestViable_of_refused (front : Arrives .start xs a) (refused : a.step t = none) :
    LongestViable ((xs ++ t :: ys).map Lexeme.token) xs.length where
  within := by simp
  viable := by
    rw [← List.map_take, List.take_left]
    exact viable_iff.mpr ⟨a, front⟩
  longest := by
    intro k _ viable
    by_contra longer
    have split : k = xs.length + (k - xs.length - 1 + 1) := by omega
    rw [← List.map_take, split, List.take_length_add_append, List.take_succ_cons, viable_iff]
      at viable
    obtain ⟨b, all⟩ := viable
    obtain ⟨next, step⟩ := front.step_of_append all
    rw [refused] at step
    contradiction

theorem longestViable_of_arrives (all : Arrives .start ls a) :
    LongestViable (ls.map Lexeme.token) ls.length := by
  simpa using (viable_iff.mpr ⟨a, all⟩).longestViable

end Through

/-! ### Where a run stops -/

namespace ReaderState

/-- A run that fails got through the tokens in front of a state that cannot take the next one, or in
which the tokens may not end. -/
theorem exists_of_run_eq_error {s : ReaderState} {previous : Option Lexeme} {ls : List Lexeme}
    {fault : SyntaxFault} (ran : s.run previous ls = .error fault) :
    ∃ front state, Arrives s front state ∧
      (ls = front ∧ state.finish (front.getLast?.or previous) = .error fault ∨
        ∃ t rest, ls = front ++ t :: rest ∧ state.step t = none ∧
          fault = state.refuse (front.getLast?.or previous) t) := by
  induction ls generalizing s previous with
  | nil => exact ⟨[], s, .refl s, .inl ⟨rfl, ran⟩⟩
  | cons t others ih =>
    rw [run] at ran
    split at ran
    next next step =>
      obtain ⟨front, state, arrives, stops⟩ := ih ran
      have before : (t :: front).getLast?.or previous = front.getLast?.or (some t) := by
        rw [List.getLast?_cons]
        cases front.getLast? <;> rfl
      refine ⟨t :: front, state, .step step arrives, ?_⟩
      rw [before]
      rcases stops with ⟨rfl, finish⟩ | ⟨u, rest, rfl, refused, same⟩
      · exact .inl ⟨rfl, finish⟩
      · exact .inr ⟨u, rest, rfl, refused, same⟩
    next refused =>
      exact ⟨[], s, .refl s, .inr ⟨t, others, rfl, refused, (Except.error.inj ran).symm⟩⟩

end ReaderState

/-! ### Commas -/

/-- The comma with which a row of tokens ends. -/
def trailingComma? (ls : List Lexeme) : Option Lexeme :=
  ls.getLast?.filter (·.token = .mark .comma)

section Comma

variable {s next last : ReaderState} {t : Lexeme} {ls : List Lexeme}

/-- Of all places only the one behind a parameter takes a comma. -/
theorem ReaderState.comma?_of_comma (step : s.step t = some next)
    (sign : t.token = .mark .comma) : next.comma? = some t := by
  have other : t.token.isName = false := by rw [sign]; rfl
  cases s with
  | property site properties =>
    simp only [ReaderState.step, PropertySite.step, other, Bool.false_and, Bool.false_eq_true,
      if_false] at step
    cases site with
    | settings | cell => simp [PropertySite.leave, sign] at step
    | component site =>
      cases site <;> simp [PropertySite.leave, ComponentSite.step, FilledItem.step, OpenBlock.step,
        sign] at step
    | params =>
      cases properties with
      | nil => simp [PropertySite.leave, sign] at step
      | cons =>
        obtain rfl : _ = next := by simpa [PropertySite.leave, sign] using step
        rfl
  | _ =>
    simp [ReaderState.step, OpenProject.step, ParamSite.step, OpenItem.step, OpenBlock.step,
      FilledItem.step, Token.isString, Token.isValue, Token.isName, sign] at step

/-- A state waits behind a comma if the comma was read last. -/
theorem ReaderState.comma?_eq (step : s.step t = some next) : next.comma? = trailingComma? [t] := by
  by_cases sign : t.token = .mark .comma
  · rw [comma?_of_comma step sign]
    simp [trailingComma?, sign, Option.filter]
  · have none : next.comma? = none := by
      cases waits : next.comma? with
      | none => rfl
      | some c => exact absurd (comma?_of_step step c waits).2 sign
    rw [none]
    simp [trailingComma?, sign, Option.filter]

theorem Arrives.comma?_eq (arrives : Arrives s (t :: ls) last) :
    last.comma? = trailingComma? (t :: ls) := by
  induction ls generalizing s t with
  | nil =>
    cases arrives with
    | step one rest =>
      cases rest
      exact ReaderState.comma?_eq one
  | cons u ls ih =>
    cases arrives with
    | step one rest => exact ih rest

/-- From the start on, a state waits behind a comma exactly if the tokens end with it. -/
theorem Arrives.comma?_eq_of_start (arrives : Arrives .start ls last) :
    last.comma? = trailingComma? ls := by
  cases ls with
  | nil =>
    cases arrives
    rfl
  | cons t ls => exact arrives.comma?_eq

end Comma

/-! ### What is blamed -/

/-- The range at which the token behind the first `n` ones is shown, or the end of the tokens. A
closing brace is shown by the token before it. -/
def blamedRange (ls : List Lexeme) (n : Nat) : CodeRange :=
  match ls[n]? with
  | none => ls.getLast?.elim .origin Lexeme.range
  | some t =>
    if t.token = .mark .rightBrace then (ls.take n).getLast?.elim t.range Lexeme.range else t.range

/-- A diagnostic blames the token behind the first `n` ones, or the end of the tokens if there is
none. -/
structure Diagnostic.Blames (d : Diagnostic) (ls : List Lexeme) (n : Nat) : Prop where
  code : d.code = if n = ls.length then .unexpectedEnd else .unexpectedToken
  ended : n = ls.length → ∃ wanted : Expectation,
    d.message = s!"unexpected end of input, expected {wanted.text}"
  quotes : ∀ t ∈ ls[n]?, ∃ wanted : Expectation,
    d.message = s!"unexpected `{t.text}`, expected {wanted.text}"
  range : d.range = blamedRange ls n

/-- The index of the token that is blamed if the first `n` ones are the longest beginning of a
project. If they end with a comma, the comma is blamed. -/
def faultIndex (ls : List Lexeme) (n : Nat) : Nat :=
  if (trailingComma? (ls.take n)).isSome then n - 1 else n

section Blame

variable {front rest ls : List Lexeme} {t : Lexeme} {state : ReaderState} {fault : SyntaxFault}

theorem blames_ended (ls : List Lexeme) (wanted : Expectation) :
    (SyntaxFault.ended ls.getLast? wanted).diagnostic.Blames ls ls.length where
  code := (if_pos rfl).symm
  ended := fun _ => ⟨wanted, rfl⟩
  quotes := by simp
  range := by simp [blamedRange, SyntaxFault.diagnostic, SyntaxFault.range, Diagnostic.error]

theorem blames_unexpected (wanted : Expectation) {previous : Option Lexeme}
    (before : t.token = .mark .rightBrace → previous = front.getLast?) :
    (SyntaxFault.unexpected t previous wanted).diagnostic.Blames (front ++ t :: rest)
      front.length where
  code := by
    rw [if_neg (by simp)]
    rfl
  ended := by simp
  quotes := by
    intro u found
    obtain rfl : t = u := by simpa using found
    exact ⟨wanted, rfl⟩
  range := by
    have range : (SyntaxFault.unexpected t previous wanted).diagnostic.range =
        (SyntaxFault.unexpected t previous wanted).range := rfl
    rw [range, blamedRange, List.getElem?_append_right (Nat.le_refl _), Nat.sub_self,
      List.getElem?_cons_zero, List.take_left]
    by_cases closing : t.token = .mark .rightBrace
    · rw [before closing]
      cases front.getLast? <;> simp [SyntaxFault.range, closing]
    · simp [SyntaxFault.range, closing]

theorem blames_comma {comma : Lexeme} (ends : trailingComma? front = some comma) :
    (SyntaxFault.unexpected comma none .paramEnd).diagnostic.Blames (front ++ rest)
      (faultIndex (front ++ rest) front.length) := by
  obtain ⟨last, sign⟩ := Option.filter_eq_some_iff.mp ends
  obtain ⟨others, rfl⟩ := List.getLast?_eq_some_iff.mp last
  have index : faultIndex (others ++ [comma] ++ rest) (others ++ [comma]).length =
      others.length := by
    rw [faultIndex, List.take_left, ends]
    simp
  rw [index, List.append_assoc, List.singleton_append]
  refine blames_unexpected .paramEnd fun closing => ?_
  rw [of_decide_eq_true sign] at closing
  contradiction

/-- Where the tokens run out, the end is blamed, or the comma with which they end. -/
theorem blames_of_finish (arrives : Arrives .start ls state)
    (finish : state.finish ls.getLast? = .error fault) :
    fault.diagnostic.Blames ls (faultIndex ls ls.length) := by
  have waits := arrives.comma?_eq_of_start
  cases state with
  | nothing => contradiction
  | param site opening properties comma =>
    obtain rfl := Except.error.inj finish
    have blamed : (SyntaxFault.unexpected comma none .paramEnd).diagnostic.Blames (ls ++ [])
        (faultIndex (ls ++ []) ls.length) := blames_comma waits.symm
    rwa [List.append_nil] at blamed
  | _ =>
    obtain rfl := Except.error.inj finish
    rw [faultIndex, List.take_length, ← waits]
    exact blames_ended ls _

/-- Where a token cannot come, it is blamed, or the comma before it. -/
theorem blames_of_refuse (arrives : Arrives .start front state) :
    (state.refuse front.getLast? t).diagnostic.Blames (front ++ t :: rest)
      (faultIndex (front ++ t :: rest) front.length) := by
  have waits := arrives.comma?_eq_of_start
  cases state with
  | param site opening properties comma => exact blames_comma waits.symm
  | _ =>
    rw [faultIndex, List.take_left, ← waits]
    exact blames_unexpected _ fun _ => rfl

/-- If a row of tokens is no project and no blocks are nested too deep, its fault blames the token
behind its longest beginning of a project, or the comma with which that ends. -/
theorem exists_fault (nests : NestsWithin nestingLimit (ls.map Lexeme.token))
    (broken : ¬ Derivable (.rule .project) (ls.map Lexeme.token)) :
    ∃ n fault, LongestViable (ls.map Lexeme.token) n ∧
      ProjectBlock.ofLexemes ls = .error fault ∧
      fault.diagnostic.Blames ls (faultIndex ls n) := by
  rw [ProjectBlock.ofLexemes, firstTooDeep?_zero_eq_none_iff.mpr nests]
  cases ran : ReaderState.start.run none ls with
  | ok project => exact absurd (derivable_of_run ran) broken
  | error fault =>
    obtain ⟨front, state, arrives, stops⟩ := ReaderState.exists_of_run_eq_error ran
    rw [Option.or_none] at stops
    rcases stops with ⟨rfl, finish⟩ | ⟨t, rest, rfl, refused, rfl⟩
    · exact ⟨_, fault, longestViable_of_arrives arrives, rfl, blames_of_finish arrives finish⟩
    · exact ⟨_, _, longestViable_of_refused arrives refused, rfl, blames_of_refuse arrives⟩

/-- What is not read although no blocks are nested too deep is not derived. -/
theorem not_derivable_of_fault (nests : NestsWithin nestingLimit (ls.map Lexeme.token))
    (read : ProjectBlock.ofLexemes ls = .error fault) :
    ¬ Derivable (.rule .project) (ls.map Lexeme.token) := by
  intro derived
  obtain ⟨project, arrives⟩ := derivable_iff.mp derived
  have passed := firstTooDeep?_zero_eq_none_iff.mpr nests
  rw [ofLexemes_eq_ok_iff.mpr ⟨passed, arrives.run rfl none⟩] at read
  contradiction

end Blame

/-- In a row of tokens of which no part opens too many blocks, the fault blames the token behind the
longest beginning of a project, or the end of the tokens if that is all of them. If the beginning
ends with a comma, the comma is blamed. So of every project all beginnings but those that end with a
comma are said to end too early. -/
theorem syntaxFault_blames {ls : List Lexeme} (nests : NestsWithin 64 (ls.map Lexeme.token)) :
    (¬ Derivable (.rule .project) (ls.map Lexeme.token) →
      ∃ n fault, LongestViable (ls.map Lexeme.token) n ∧
        ProjectBlock.ofLexemes ls = .error fault ∧
        fault.diagnostic.Blames ls (faultIndex ls n)) ∧
      ∀ rest, rest ≠ [] → Derivable (.rule .project) (ls.map Lexeme.token ++ rest) →
        trailingComma? ls = none →
        ∃ fault, ProjectBlock.ofLexemes ls = .error fault ∧
          fault.diagnostic.Blames ls ls.length := by
  refine ⟨exists_fault nests, fun rest some derived plain => ?_⟩
  have broken : ¬ Derivable (.rule .project) (ls.map Lexeme.token) :=
    fun whole => some (whole.eq_nil_of_append derived)
  obtain ⟨n, fault, longest, read, blames⟩ := exists_fault nests broken
  have viable : Viable (ls.map Lexeme.token) := ⟨rest, derived⟩
  have all : n = ls.length := by simpa using longest.unique viable.longestViable
  rw [all, faultIndex, List.take_length, plain] at blames
  exact ⟨fault, read, blames⟩

/-- What is read is derived. -/
theorem derivable_of_isSome (ls : List Lexeme)
    (read : (ProjectBlock.ofLexemes ls).toOption.isSome = true) :
    Derivable (.rule .project) (ls.map Lexeme.token) := by
  cases found : ProjectBlock.ofLexemes ls with
  | ok project => exact (written_fits found).1
  | error fault =>
    rw [found] at read
    contradiction

/-- A project that breaks off inside a screen. -/
def brokenOffText : String :=
  "project \"T\" \x7b screen Main (a: 1, b: x) \x7b layout row \x7b"

theorem syntaxFault_blames_brokenOffText :
    NestsWithin 64 ((scan brokenOffText.toList).lexemes.map Lexeme.token) ∧
      ¬ Derivable (.rule .project) ((scan brokenOffText.toList).lexemes.map Lexeme.token) ∧
      (∃ n fault, LongestViable ((scan brokenOffText.toList).lexemes.map Lexeme.token) n ∧
        ProjectBlock.ofLexemes (scan brokenOffText.toList).lexemes = .error fault ∧
        fault.diagnostic.Blames (scan brokenOffText.toList).lexemes
          (faultIndex (scan brokenOffText.toList).lexemes n)) ∧
      ∃ fault, ProjectBlock.ofLexemes (scan brokenOffText.toList).lexemes = .error fault ∧
        fault.diagnostic.Blames (scan brokenOffText.toList).lexemes
          (scan brokenOffText.toList).lexemes.length := by
  have nests : NestsWithin 64 ((scan brokenOffText.toList).lexemes.map Lexeme.token) :=
    firstTooDeep?_zero_eq_none_iff.mp (by decide +kernel)
  -- Three closing braces make a project of it.
  have spelled : (scan (brokenOffText ++ " \x7d \x7d \x7d").toList).lexemes.map Lexeme.token =
      (scan brokenOffText.toList).lexemes.map Lexeme.token ++
        [.mark .rightBrace, .mark .rightBrace, .mark .rightBrace] := by decide +kernel
  have derived := derivable_of_isSome
    (scan (brokenOffText ++ " \x7d \x7d \x7d").toList).lexemes (by decide +kernel)
  rw [spelled] at derived
  obtain ⟨first, second⟩ := syntaxFault_blames nests
  obtain ⟨fault, read, blames⟩ := second _ (List.cons_ne_nil _ _) derived (by decide +kernel)
  have broken := not_derivable_of_fault nests read
  exact ⟨nests, broken, first broken, fault, read, blames⟩

/-- A project that breaks off behind a comma. -/
def trailingCommaText : String :=
  "project \"T\" \x7b screen Main (a: 1,"

/-- Behind a comma a project can go on, but the comma is blamed as if it could not come there. -/
theorem blames_comma_trailingCommaText :
    NestsWithin 64 ((scan trailingCommaText.toList).lexemes.map Lexeme.token) ∧
      ¬ Derivable (.rule .project) ((scan trailingCommaText.toList).lexemes.map Lexeme.token) ∧
      LongestViable ((scan trailingCommaText.toList).lexemes.map Lexeme.token)
        (scan trailingCommaText.toList).lexemes.length ∧
      ∃ fault, ProjectBlock.ofLexemes (scan trailingCommaText.toList).lexemes = .error fault ∧
        fault.diagnostic.code = .unexpectedToken ∧
        fault.diagnostic.message = "unexpected `,`, expected `,` or `)`" ∧
        ¬ fault.diagnostic.Blames (scan trailingCommaText.toList).lexemes
          (scan trailingCommaText.toList).lexemes.length := by
  have nests : NestsWithin 64 ((scan trailingCommaText.toList).lexemes.map Lexeme.token) :=
    firstTooDeep?_zero_eq_none_iff.mp (by decide +kernel)
  have told : (match ProjectBlock.ofLexemes (scan trailingCommaText.toList).lexemes with
      | .ok _ => none
      | .error fault => some (fault.diagnostic.code, fault.diagnostic.message)) =
      some (Code.unexpectedToken, "unexpected `,`, expected `,` or `)`") := by
    decide +kernel
  cases read : ProjectBlock.ofLexemes (scan trailingCommaText.toList).lexemes with
  | ok project =>
    rw [read] at told
    contradiction
  | error fault =>
    rw [read] at told
    obtain ⟨code, message⟩ := Prod.mk.inj (Option.some.inj told)
    -- One more parameter and a layout make a project of it.
    have spelled : (scan (trailingCommaText ++
          "b: 2) \x7b layout row \x7b \x7d \x7d \x7d").toList).lexemes.map Lexeme.token =
        (scan trailingCommaText.toList).lexemes.map Lexeme.token ++
          [.name "b", .mark .colon, .number "2", .mark .rightParen, .mark .leftBrace,
            .keyword .layout, .name "row", .mark .leftBrace, .mark .rightBrace,
            .mark .rightBrace, .mark .rightBrace] := by decide +kernel
    have derived := derivable_of_isSome
      (scan (trailingCommaText ++ "b: 2) \x7b layout row \x7b \x7d \x7d \x7d").toList).lexemes
      (by decide +kernel)
    rw [spelled] at derived
    have viable : Viable ((scan trailingCommaText.toList).lexemes.map Lexeme.token) := ⟨_, derived⟩
    refine ⟨nests, not_derivable_of_fault nests read, by simpa using viable.longestViable, fault,
      rfl, code, message, fun blames => ?_⟩
    have ended := blames.code
    rw [if_pos rfl, code] at ended
    contradiction

end Wireframe
