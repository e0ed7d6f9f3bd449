import Wireframe.Block.Reader

/-!
# The grammar of projects

The grammar is written down as data: a phrase is made of single tokens and of other phrases, and
every rule has a phrase for its body. Braces only come in pairs, around the phrase that they
enclose, so a derivation shows how deep its blocks are nested. The nesting check looks at the braces
alone, and it comes to the same result on every row of tokens that a phrase derives.

## Main definitions

* `Terminal`, `Phrase`, `Rule` — the grammar.
* `Derives` — the rows of tokens that a phrase stands for, with blocks up to some depth.
* `Derivable` — the same at any depth.

## Main results

* `derives_seq_iff`, `derives_many_iff`, `derives_block_iff` — how a row of tokens is derived.
* `Derives.firstTooDeep?_append` — blocks that are not nested too deep pass the nesting check.
* `Derives.of_firstTooDeep?_eq_none` — only those pass it.
-/

namespace Wireframe

/-- A single token in the grammar. There are no braces among these. -/
inductive Terminal where
  | keyword (word : Keyword)
  | colon
  | comma
  | leftParen
  | rightParen
  | identifier
  | string
  | number
  | color
  deriving DecidableEq, Repr

/-- The tokens that a terminal stands for. -/
def Terminal.Matches : Terminal → Token → Prop
  | .keyword word, t => t = .keyword word
  | .colon, t => t = .mark .colon
  | .comma, t => t = .mark .comma
  | .leftParen, t => t = .mark .leftParen
  | .rightParen, t => t = .mark .rightParen
  | .identifier, t => ∃ raw, t = .name raw
  | .string, t => ∃ raw, t = .string raw
  | .number, t => ∃ raw, t = .number raw
  | .color, t => ∃ raw, t = .color raw

/-- The names of the rules. -/
inductive Rule where
  | project
  | settings
  | definition
  | screen
  | layout
  | cell
  | component
  | params
  | property
  | id
  | value
  deriving DecidableEq, Repr

/-- What a rule may be made of. -/
inductive Phrase where
  | terminal (terminal : Terminal)
  | rule (rule : Rule)
  | seq (first second : Phrase)
  | either (first second : Phrase)
  | optional (phrase : Phrase)
  | many (phrase : Phrase)
  /-- A phrase between braces. -/
  | block (phrase : Phrase)
  deriving DecidableEq, Repr

/-- A reserved word. -/
def Phrase.keyword (word : Keyword) : Phrase :=
  .terminal (.keyword word)

/-- The grammar. A project is a whole text, so its rule also says that nothing follows. -/
def Rule.body : Rule → Phrase
  | .project =>
    .seq (.keyword .project) <| .seq (.terminal .string) <|
      .block <| .many <| .either (.rule .settings) <| .either (.rule .definition) (.rule .screen)
  | .settings =>
    .seq (.either (.keyword .style) <| .either (.keyword .mocks) (.keyword .colors)) <|
      .block <| .many <| .rule .property
  | .definition =>
    .seq (.keyword .define) <| .either
      (.seq (.keyword .componentKind) <| .seq (.terminal .string) <|
        .block <| .either (.rule .layout) (.rule .component))
      (.seq (.keyword .layoutKind) <| .seq (.terminal .string) <| .block <| .rule .layout)
  | .screen =>
    .seq (.keyword .screen) <| .seq (.rule .id) <| .seq (.optional (.rule .params)) <|
      .block <| .rule .layout
  | .layout =>
    .seq (.keyword .layout) <| .seq (.rule .id) <| .seq (.optional (.rule .params)) <|
      .block <| .many <| .either (.rule .component) <| .either (.rule .layout) (.rule .cell)
  | .cell =>
    .seq (.keyword .cell) <| .seq (.many (.rule .property)) <|
      .block <| .many <| .either (.rule .component) (.rule .layout)
  | .component =>
    .seq (.keyword .component) <| .seq (.rule .id) <| .many <| .rule .property
  | .params =>
    .seq (.terminal .leftParen) <| .seq
      (.optional <| .seq (.rule .property) <| .many <| .seq (.terminal .comma) (.rule .property))
      (.terminal .rightParen)
  | .property => .seq (.rule .id) <| .seq (.terminal .colon) (.rule .value)
  | .id =>
    .either (.terminal .identifier) <| .either (.keyword .componentKind) (.keyword .layoutKind)
  | .value =>
    .either (.rule .id) <| .either (.terminal .string) <|
      .either (.terminal .number) (.terminal .color)

/-- A phrase stands for a row of tokens, in which blocks are nested at most `depth` deep. -/
inductive Derives : (depth : Nat) → Phrase → List Token → Prop
  | terminal {depth : Nat} {k : Terminal} {t : Token} :
    k.Matches t → Derives depth (.terminal k) [t]
  | rule {depth : Nat} {r : Rule} {ts : List Token} :
    Derives depth r.body ts → Derives depth (.rule r) ts
  | seq {depth : Nat} {a b : Phrase} {xs ys : List Token} :
    Derives depth a xs → Derives depth b ys → Derives depth (.seq a b) (xs ++ ys)
  | first {depth : Nat} {a b : Phrase} {ts : List Token} :
    Derives depth a ts → Derives depth (.either a b) ts
  | second {depth : Nat} {a b : Phrase} {ts : List Token} :
    Derives depth b ts → Derives depth (.either a b) ts
  | absent {depth : Nat} {a : Phrase} : Derives depth (.optional a) []
  | present {depth : Nat} {a : Phrase} {ts : List Token} :
    Derives depth a ts → Derives depth (.optional a) ts
  | done {depth : Nat} {a : Phrase} : Derives depth (.many a) []
  | more {depth : Nat} {a : Phrase} {xs ys : List Token} :
    Derives depth a xs → Derives depth (.many a) ys → Derives depth (.many a) (xs ++ ys)
  | block {depth : Nat} {a : Phrase} {ts : List Token} :
    Derives depth a ts →
      Derives (depth + 1) (.block a) (.mark .leftBrace :: (ts ++ [.mark .rightBrace]))

/-- A phrase stands for a row of tokens, however deep the blocks in it are nested. -/
def Derivable (phrase : Phrase) (ts : List Token) : Prop :=
  ∃ depth, Derives depth phrase ts

/-! ### Derivations by the shape of the phrase -/

section Shape

variable {depth : Nat} {a b : Phrase} {k : Terminal} {r : Rule} {ts : List Token}

theorem derives_terminal_iff : Derives depth (.terminal k) ts ↔ ∃ t, ts = [t] ∧ k.Matches t := by
  constructor
  · intro derived
    cases derived with
    | terminal fits => exact ⟨_, rfl, fits⟩
  · rintro ⟨t, rfl, fits⟩
    exact .terminal fits

theorem derives_rule_iff : Derives depth (.rule r) ts ↔ Derives depth r.body ts := by
  constructor
  · intro derived
    cases derived with
    | rule inner => exact inner
  · exact .rule

theorem derives_seq_iff :
    Derives depth (.seq a b) ts ↔
      ∃ xs ys, ts = xs ++ ys ∧ Derives depth a xs ∧ Derives depth b ys := by
  constructor
  · intro derived
    cases derived with
    | seq left right => exact ⟨_, _, rfl, left, right⟩
  · rintro ⟨xs, ys, rfl, left, right⟩
    exact .seq left right

theorem derives_either_iff :
    Derives depth (.either a b) ts ↔ Derives depth a ts ∨ Derives depth b ts := by
  constructor
  · intro derived
    cases derived with
    | first inner => exact .inl inner
    | second inner => exact .inr inner
  · rintro (inner | inner)
    · exact .first inner
    · exact .second inner

theorem derives_optional_iff :
    Derives depth (.optional a) ts ↔ ts = [] ∨ Derives depth a ts := by
  constructor
  · intro derived
    cases derived with
    | absent => exact .inl rfl
    | present inner => exact .inr inner
  · rintro (rfl | inner)
    · exact .absent
    · exact .present inner

theorem derives_many_iff :
    Derives depth (.many a) ts ↔ ∃ parts : List (List Token), ts = parts.flatten ∧
      ∀ part ∈ parts, Derives depth a part := by
  constructor
  · -- By induction on the derivation: of the rules only two make a repetition.
    intro derived
    generalize phrase : Phrase.many a = p at derived
    induction derived with
    | done => exact ⟨[], rfl, by simp⟩
    | more head _ _ ih =>
      cases phrase
      obtain ⟨parts, rfl, all⟩ := ih rfl
      exact ⟨_ :: parts, rfl, List.forall_mem_cons.mpr ⟨head, all⟩⟩
    | _ => cases phrase
  · rintro ⟨parts, rfl, all⟩
    induction parts with
    | nil => exact .done
    | cons part parts ih =>
      obtain ⟨head, tail⟩ := List.forall_mem_cons.mp all
      exact .more head (ih tail)

theorem derives_block_iff :
    Derives depth (.block a) ts ↔ ∃ below inside, depth = below + 1 ∧
      ts = .mark .leftBrace :: (inside ++ [.mark .rightBrace]) ∧ Derives below a inside := by
  constructor
  · intro derived
    cases derived with
    | block inner => exact ⟨_, _, rfl, rfl, inner⟩
  · rintro ⟨below, inside, rfl, rfl, inner⟩
    exact .block inner

end Shape

/-- Room for deeper blocks does no harm. -/
theorem Derives.mono {depth deeper : Nat} {a : Phrase} {ts : List Token}
    (derived : Derives depth a ts) (room : depth ≤ deeper) : Derives deeper a ts := by
  induction derived generalizing deeper with
  | terminal fits => exact .terminal fits
  | rule _ ih => exact .rule (ih room)
  | seq _ _ left right => exact .seq (left room) (right room)
  | first _ ih => exact .first (ih room)
  | second _ ih => exact .second (ih room)
  | absent => exact .absent
  | present _ ih => exact .present (ih room)
  | done => exact .done
  | more _ _ head tail => exact .more (head room) (tail room)
  | block _ ih =>
    obtain ⟨below, rfl⟩ : ∃ below, deeper = below + 1 := ⟨deeper - 1, by omega⟩
    exact .block (ih (by omega))

/-! ### Derivations of any depth -/

namespace Derivable

variable {a b : Phrase} {k : Terminal} {r : Rule} {t : Token} {ts xs ys : List Token}

theorem terminal (fits : k.Matches t) : Derivable (.terminal k) [t] :=
  ⟨0, .terminal fits⟩

theorem rule (body : Derivable r.body ts) : Derivable (.rule r) ts := by
  obtain ⟨depth, derived⟩ := body
  exact ⟨depth, .rule derived⟩

/-- Two derivations share the larger of their depths. -/
theorem seq (first : Derivable a xs) (second : Derivable b ys) :
    Derivable (.seq a b) (xs ++ ys) := by
  obtain ⟨n, left⟩ := first
  obtain ⟨m, right⟩ := second
  exact ⟨max n m, .seq (left.mono (Nat.le_max_left n m)) (right.mono (Nat.le_max_right n m))⟩

/-- A phrase that opens with a single token. -/
theorem cons (fits : k.Matches t) (rest : Derivable b ts) :
    Derivable (.seq (.terminal k) b) (t :: ts) :=
  seq (terminal fits) rest

theorem either_first (first : Derivable a ts) : Derivable (.either a b) ts := by
  obtain ⟨depth, derived⟩ := first
  exact ⟨depth, .first derived⟩

theorem either_second (second : Derivable b ts) : Derivable (.either a b) ts := by
  obtain ⟨depth, derived⟩ := second
  exact ⟨depth, .second derived⟩

theorem absent : Derivable (.optional a) [] :=
  ⟨0, .absent⟩

theorem present (inner : Derivable a ts) : Derivable (.optional a) ts := by
  obtain ⟨depth, derived⟩ := inner
  exact ⟨depth, .present derived⟩

theorem more (first : Derivable a xs) (others : Derivable (.many a) ys) :
    Derivable (.many a) (xs ++ ys) := by
  obtain ⟨n, left⟩ := first
  obtain ⟨m, right⟩ := others
  exact ⟨max n m, .more (left.mono (Nat.le_max_left n m)) (right.mono (Nat.le_max_right n m))⟩

theorem many {α : Type} {items : List α} {tokens : α → List Token}
    (all : ∀ item ∈ items, Derivable a (tokens item)) :
    Derivable (.many a) (items.flatMap tokens) := by
  induction items with
  | nil => exact ⟨0, .done⟩
  | cons item items ih =>
    obtain ⟨head, tail⟩ := List.forall_mem_cons.mp all
    exact more head (ih tail)

theorem block (inner : Derivable a ts) :
    Derivable (.block a) (.mark .leftBrace :: (ts ++ [.mark .rightBrace])) := by
  obtain ⟨depth, derived⟩ := inner
  exact ⟨depth + 1, .block derived⟩

end Derivable

/-! ### The nesting check -/

/-- No terminal is a brace. -/
theorem Terminal.Matches.not_brace {k : Terminal} {t : Token} (fits : k.Matches t) :
    t ≠ .mark .leftBrace ∧ t ≠ .mark .rightBrace := by
  cases k <;> simp only [Terminal.Matches] at fits
  case identifier | string | number | color =>
    obtain ⟨raw, rfl⟩ := fits
    exact ⟨nofun, nofun⟩
  all_goals
    subst fits
    exact ⟨nofun, nofun⟩

section Nesting

variable {t : Lexeme} {others : List Lexeme}

/-- Only braces count. -/
theorem firstTooDeep?_cons_other (depth : Nat) (notLeft : t.token ≠ .mark .leftBrace)
    (notRight : t.token ≠ .mark .rightBrace) :
    firstTooDeep? depth (t :: others) = firstTooDeep? depth others := by
  rw [firstTooDeep?]
  split
  · contradiction
  · contradiction
  · rfl

theorem firstTooDeep?_cons_leftBrace (depth : Nat) (left : t.token = .mark .leftBrace) :
    firstTooDeep? depth (t :: others) =
      if nestingLimit ≤ depth then some t else firstTooDeep? (depth + 1) others := by
  rw [firstTooDeep?, left]

theorem firstTooDeep?_cons_rightBrace (depth : Nat) (right : t.token = .mark .rightBrace) :
    firstTooDeep? depth (t :: others) = firstTooDeep? (depth - 1) others := by
  rw [firstTooDeep?, right]

/-- The check stops at a token, or goes on behind it in a way that depends on that token alone. -/
theorem firstTooDeep?_cons (depth : Nat) (t : Lexeme) :
    (t.token = .mark .leftBrace ∧ ∀ others, firstTooDeep? depth (t :: others) = some t) ∨
      ∃ next, ∀ others, firstTooDeep? depth (t :: others) = firstTooDeep? next others := by
  by_cases left : t.token = .mark .leftBrace
  · by_cases full : nestingLimit ≤ depth
    · exact .inl ⟨left, fun others => by rw [firstTooDeep?_cons_leftBrace depth left, if_pos full]⟩
    · exact .inr ⟨depth + 1, fun others => by
        rw [firstTooDeep?_cons_leftBrace depth left, if_neg full]⟩
  · by_cases right : t.token = .mark .rightBrace
    · exact .inr ⟨depth - 1, fun others => firstTooDeep?_cons_rightBrace depth right⟩
    · exact .inr ⟨depth, fun others => firstTooDeep?_cons_other depth left right⟩

/-- The check passes all tokens before the brace that it finds, and stops there whatever follows. -/
theorem exists_of_firstTooDeep? {depth : Nat} {ls : List Lexeme} {brace : Lexeme}
    (found : firstTooDeep? depth ls = some brace) :
    ∃ front rest, ls = front ++ brace :: rest ∧ brace.token = .mark .leftBrace ∧
      firstTooDeep? depth front = none ∧ firstTooDeep? depth (front ++ [brace]) = some brace := by
  induction ls generalizing depth with
  | nil => contradiction
  | cons l ls ih =>
    rcases firstTooDeep?_cons depth l with ⟨left, stops⟩ | ⟨next, goes⟩
    · obtain rfl := Option.some.inj ((stops ls).symm.trans found)
      exact ⟨[], ls, rfl, left, rfl, stops []⟩
    · rw [goes] at found
      obtain ⟨front, rest, rfl, token, passes, stops⟩ := ih found
      refine ⟨l :: front, rest, rfl, token, ?_, ?_⟩
      · rw [goes, passes]
      · rw [List.cons_append, goes, stops]

end Nesting

/-- The lexemes of a block are those inside it between two braces. -/
theorem exists_eq_of_map_token_eq_block {ls : List Lexeme} {inside : List Token}
    (spelled : ls.map Lexeme.token = .mark .leftBrace :: (inside ++ [.mark .rightBrace])) :
    ∃ opening between closing, ls = opening :: (between ++ [closing]) ∧
      opening.token = .mark .leftBrace ∧ closing.token = .mark .rightBrace ∧
      between.map Lexeme.token = inside := by
  obtain ⟨opening, rest, rfl, left, spelled⟩ := List.map_eq_cons_iff.mp spelled
  obtain ⟨between, last, rfl, same, spelled⟩ := List.map_eq_append_iff.mp spelled
  obtain ⟨closing, rfl, right⟩ := List.map_eq_singleton_iff.mp spelled
  exact ⟨opening, between, closing, rfl, left, right, same⟩

/-- A row of tokens with blocks that fit below the limit passes the nesting check, and leaves as
many blocks open as before. -/
theorem Derives.firstTooDeep?_append {depth : Nat} {a : Phrase} {ts : List Token}
    (derived : Derives depth a ts) :
    ∀ {outside : Nat} {ls : List Lexeme} (rest : List Lexeme), ls.map Lexeme.token = ts →
      outside + depth ≤ nestingLimit →
      firstTooDeep? outside (ls ++ rest) = firstTooDeep? outside rest := by
  induction derived with
  | terminal fits =>
    intro outside ls rest spelled _
    obtain ⟨l, rfl, rfl⟩ := List.map_eq_singleton_iff.mp spelled
    exact firstTooDeep?_cons_other outside fits.not_brace.1 fits.not_brace.2
  | rule _ ih => exact ih
  | first _ ih => exact ih
  | second _ ih => exact ih
  | present _ ih => exact ih
  | absent | done =>
    intro outside ls rest spelled _
    rw [List.map_eq_nil_iff.mp spelled, List.nil_append]
  | seq _ _ left right | more _ _ left right =>
    intro outside ls rest spelled room
    obtain ⟨xs, ys, rfl, first, second⟩ := List.map_eq_append_iff.mp spelled
    rw [List.append_assoc, left _ first room, right _ second room]
  | block _ ih =>
    intro outside ls rest spelled room
    obtain ⟨opening, between, closing, rfl, left, right, inside⟩ :=
      exists_eq_of_map_token_eq_block spelled
    -- The two braces count up and down again around what is inside.
    have within : ¬ nestingLimit ≤ outside := by omega
    rw [List.cons_append, List.append_assoc, firstTooDeep?_cons_leftBrace outside left,
      if_neg within, ih _ inside (by omega), List.singleton_append,
      firstTooDeep?_cons_rightBrace _ right, Nat.add_sub_cancel]

/-- A row of tokens that passes the nesting check has no block beyond the limit. -/
theorem Derives.of_firstTooDeep?_eq_none {depth : Nat} {a : Phrase} {ts : List Token}
    (derived : Derives depth a ts) :
    ∀ {outside : Nat} {ls rest : List Lexeme}, ls.map Lexeme.token = ts →
      outside ≤ nestingLimit → firstTooDeep? outside (ls ++ rest) = none →
      Derives (nestingLimit - outside) a ts ∧ firstTooDeep? outside rest = none := by
  induction derived with
  | terminal fits =>
    intro outside ls rest spelled _ passed
    obtain ⟨l, rfl, rfl⟩ := List.map_eq_singleton_iff.mp spelled
    rw [List.singleton_append,
      firstTooDeep?_cons_other outside fits.not_brace.1 fits.not_brace.2] at passed
    exact ⟨.terminal fits, passed⟩
  | rule _ ih =>
    intro outside ls rest spelled room passed
    exact (ih spelled room passed).imp_left .rule
  | first _ ih =>
    intro outside ls rest spelled room passed
    exact (ih spelled room passed).imp_left .first
  | second _ ih =>
    intro outside ls rest spelled room passed
    exact (ih spelled room passed).imp_left .second
  | present _ ih =>
    intro outside ls rest spelled room passed
    exact (ih spelled room passed).imp_left .present
  | absent =>
    intro outside ls rest spelled _ passed
    rw [List.map_eq_nil_iff.mp spelled] at passed
    exact ⟨.absent, passed⟩
  | done =>
    intro outside ls rest spelled _ passed
    rw [List.map_eq_nil_iff.mp spelled] at passed
    exact ⟨.done, passed⟩
  | seq _ _ left right =>
    intro outside ls rest spelled room passed
    obtain ⟨xs, ys, rfl, first, second⟩ := List.map_eq_append_iff.mp spelled
    rw [List.append_assoc] at passed
    obtain ⟨head, passed⟩ := left first room passed
    obtain ⟨tail, passed⟩ := right second room passed
    exact ⟨.seq head tail, passed⟩
  | more _ _ left right =>
    intro outside ls rest spelled room passed
    obtain ⟨xs, ys, rfl, first, second⟩ := List.map_eq_append_iff.mp spelled
    rw [List.append_assoc] at passed
    obtain ⟨head, passed⟩ := left first room passed
    obtain ⟨tail, passed⟩ := right second room passed
    exact ⟨.more head tail, passed⟩
  | block _ ih =>
    intro outside ls rest spelled room passed
    obtain ⟨opening, between, closing, rfl, left, right, inside⟩ :=
      exists_eq_of_map_token_eq_block spelled
    rw [List.cons_append, List.append_assoc, firstTooDeep?_cons_leftBrace outside left] at passed
    -- The opening brace would have been the one that is too deep.
    have within : ¬ nestingLimit ≤ outside := by
      intro full
      rw [if_pos full] at passed
      contradiction
    rw [if_neg within] at passed
    obtain ⟨inner, passed⟩ := ih inside (by omega) passed
    rw [List.singleton_append, firstTooDeep?_cons_rightBrace _ right, Nat.add_sub_cancel] at passed
    have depth : nestingLimit - outside = nestingLimit - (outside + 1) + 1 := by omega
    rw [depth]
    exact ⟨.block inner, passed⟩

end Wireframe
