import Wireframe.Proofs.ViablePrefix

/-!
# The nesting limit

The nesting check counts braces and knows nothing of the grammar. But in a row of tokens that a
phrase derives every brace is closed, so the count at an opening brace is the number of blocks that
are open around it. A project is refused for its nesting exactly if one of its braces stands inside
too many blocks, and then the first such brace is blamed.

## Main definitions

* `Balanced` — every brace is closed, and none before it is opened.
* `Opens`, `OpensAt` — a derivation has an opening brace inside some number of open blocks.
* `FirstTooDeep` — the first brace inside too many of them.

## Main results

* `Derives.balanced` — what a phrase derives is balanced.
* `Derives.exists_opens` — every opening brace of a derivation is inside some number of blocks.
* `Opens.count_leftBrace` — the braces before it count these blocks.
* `exists_firstTooDeep` — the nesting check finds the first brace inside too many blocks.
* `exists_nestingTooDeep_iff` — which projects are refused for their nesting.
-/

namespace Wireframe

/-! ### Balanced rows -/

/-- Every brace in a row of tokens is closed, and none before it is opened. -/
structure Balanced (ts : List Token) : Prop where
  total : ts.count (.mark .leftBrace) = ts.count (.mark .rightBrace)
  front : ∀ part, part <+: ts → part.count (.mark .rightBrace) ≤ part.count (.mark .leftBrace)

section Balanced

variable {ts xs ys : List Token} {t : Token}

theorem balanced_nil : Balanced [] where
  total := rfl
  front := by
    intro part front
    rw [List.prefix_nil.mp front]
    exact Nat.le_refl _

theorem balanced_singleton (notLeft : t ≠ .mark .leftBrace) (notRight : t ≠ .mark .rightBrace) :
    Balanced [t] where
  total := by simp [notLeft, notRight]
  front := by
    intro part front
    rcases List.prefix_cons_iff.mp front with rfl | ⟨rest, rfl, empty⟩
    · exact Nat.le_refl _
    · rw [List.prefix_nil.mp empty, List.count_cons_of_ne notRight]
      exact Nat.zero_le _

theorem Balanced.append (first : Balanced xs) (second : Balanced ys) : Balanced (xs ++ ys) where
  total := by rw [List.count_append, List.count_append, first.total, second.total]
  front := by
    intro part front
    have either := List.prefix_or_prefix_of_prefix front (List.prefix_append xs ys)
    rcases either with inside | ⟨rest, rfl⟩
    · exact first.front part inside
    · have bound := second.front rest ((List.prefix_append_right_inj xs).mp front)
      rw [List.count_append, List.count_append, first.total]
      omega

/-- A balanced row stays balanced between two braces. -/
theorem Balanced.block (inside : Balanced ts) :
    Balanced (.mark .leftBrace :: (ts ++ [.mark .rightBrace])) where
  total := by simp [inside.total]
  front := by
    intro part front
    rcases List.prefix_cons_iff.mp front with rfl | ⟨rest, rfl, behind⟩
    · exact Nat.le_refl _
    · rcases List.prefix_concat_iff.mp behind with rfl | within
      · simp [inside.total]
      · have other : Token.mark .leftBrace ≠ .mark .rightBrace := by decide
        have bound := inside.front rest within
        rw [List.count_cons_self, List.count_cons_of_ne other]
        omega

/-- What a phrase derives is balanced. -/
theorem Derives.balanced {depth : Nat} {a : Phrase} (derived : Derives depth a ts) :
    Balanced ts := by
  induction derived with
  | terminal fits => exact balanced_singleton fits.not_brace.1 fits.not_brace.2
  | rule _ ih | first _ ih | second _ ih | present _ ih => exact ih
  | absent | done => exact balanced_nil
  | seq _ _ left right | more _ _ left right => exact left.append right
  | block _ ih => exact ih.block

theorem Derivable.balanced {a : Phrase} (derived : Derivable a ts) : Balanced ts := by
  obtain ⟨depth, derived⟩ := derived
  exact derived.balanced

end Balanced

/-! ### Opening braces in a derivation -/

/-- A derivation of a phrase has an opening brace inside `depth` open blocks, with the tokens
`before` in front of it and `after` behind it. -/
inductive Opens : (depth : Nat) → Phrase → (before after : List Token) → Prop
  | opening {a : Phrase} {ts : List Token} :
    Derivable a ts → Opens 0 (.block a) [] (ts ++ [.mark .rightBrace])
  | inside {depth : Nat} {a : Phrase} {before after : List Token} :
    Opens depth a before after →
      Opens (depth + 1) (.block a) (.mark .leftBrace :: before) (after ++ [.mark .rightBrace])
  | rule {depth : Nat} {r : Rule} {before after : List Token} :
    Opens depth r.body before after → Opens depth (.rule r) before after
  | seqLeft {depth : Nat} {a b : Phrase} {before after ys : List Token} :
    Opens depth a before after → Derivable b ys → Opens depth (.seq a b) before (after ++ ys)
  | seqRight {depth : Nat} {a b : Phrase} {before after xs : List Token} :
    Derivable a xs → Opens depth b before after → Opens depth (.seq a b) (xs ++ before) after
  | first {depth : Nat} {a b : Phrase} {before after : List Token} :
    Opens depth a before after → Opens depth (.either a b) before after
  | second {depth : Nat} {a b : Phrase} {before after : List Token} :
    Opens depth b before after → Opens depth (.either a b) before after
  | present {depth : Nat} {a : Phrase} {before after : List Token} :
    Opens depth a before after → Opens depth (.optional a) before after
  | head {depth : Nat} {a : Phrase} {before after ys : List Token} :
    Opens depth a before after → Derivable (.many a) ys →
      Opens depth (.many a) before (after ++ ys)
  | tail {depth : Nat} {a : Phrase} {before after xs : List Token} :
    Derivable a xs → Opens depth (.many a) before after →
      Opens depth (.many a) (xs ++ before) after

section Opens

variable {depth : Nat} {a : Phrase} {ts before after : List Token}

/-- The derivation is one of the tokens in front of the brace, the brace, and those behind it. -/
theorem Opens.derivable (opens : Opens depth a before after) :
    Derivable a (before ++ .mark .leftBrace :: after) := by
  induction opens with
  | opening derived => exact .block derived
  | inside _ ih =>
    have derived := Derivable.block ih
    rwa [List.append_assoc, List.cons_append, ← List.cons_append] at derived
  | rule _ ih => exact .rule ih
  | first _ ih => exact .either_first ih
  | second _ ih => exact .either_second ih
  | present _ ih => exact .present ih
  | seqLeft _ other ih =>
    have derived := Derivable.seq ih other
    rwa [List.append_assoc, List.cons_append] at derived
  | head _ others ih =>
    have derived := Derivable.more ih others
    rwa [List.append_assoc, List.cons_append] at derived
  | seqRight other _ ih =>
    rw [List.append_assoc]
    exact .seq other ih
  | tail other _ ih =>
    rw [List.append_assoc]
    exact .more other ih

/-- The braces in front of an opening brace count the blocks that are open there. -/
theorem Opens.count_leftBrace (opens : Opens depth a before after) :
    before.count (.mark .leftBrace) = before.count (.mark .rightBrace) + depth := by
  induction opens with
  | opening => rfl
  | inside _ ih => simp [ih, Nat.add_assoc]
  | rule _ ih | first _ ih | second _ ih | present _ ih | seqLeft _ _ ih | head _ _ ih => exact ih
  | seqRight other _ ih | tail other _ ih =>
    rw [List.count_append, List.count_append, other.balanced.total, ih, Nat.add_assoc]

/-- Where a token stands in one row behind another. -/
theorem append_eq_append_cons {α : Type} {xs ys before after : List α} {t : α}
    (whole : xs ++ ys = before ++ t :: after) :
    (∃ rest, xs = before ++ t :: rest ∧ after = rest ++ ys) ∨
      ∃ first, before = xs ++ first ∧ ys = first ++ t :: after := by
  rcases List.append_eq_append_iff.mp whole with ⟨first, front, back⟩ | ⟨rest, front, back⟩
  · exact .inr ⟨first, front, back⟩
  · rcases List.cons_eq_append_iff.mp back with ⟨rfl, rfl⟩ | ⟨rest, rfl, behind⟩
    · exact .inr ⟨[], by rw [front, List.append_nil, List.append_nil], rfl⟩
    · exact .inl ⟨rest, front, behind⟩

theorem prefix_append_cons {α : Type} {before : List α} {t : α} (after : List α) :
    before ++ [t] <+: before ++ t :: after :=
  ⟨after, by rw [List.append_assoc, List.singleton_append]⟩

/-- Every opening brace of a derivation stands inside some number of blocks. -/
theorem Derives.exists_opens (derived : Derives depth a ts) :
    ∀ {before after : List Token}, ts = before ++ .mark .leftBrace :: after →
      ∃ k, Opens k a before after := by
  induction derived with
  | terminal fits =>
    rintro before after whole
    have held : Token.mark .leftBrace ∈ before ++ .mark .leftBrace :: after := by simp
    rw [← whole, List.mem_singleton] at held
    exact absurd held.symm fits.not_brace.1
  | absent | done =>
    rintro before after whole
    simp at whole
  | rule _ ih => exact fun whole => (ih whole).imp fun _ => .rule
  | first _ ih => exact fun whole => (ih whole).imp fun _ => .first
  | second _ ih => exact fun whole => (ih whole).imp fun _ => .second
  | present _ ih => exact fun whole => (ih whole).imp fun _ => .present
  | seq one two left right =>
    rintro before after whole
    rcases append_eq_append_cons whole with ⟨rest, split, rfl⟩ | ⟨first, rfl, split⟩
    · exact (left split).imp fun _ opens => .seqLeft opens ⟨_, two⟩
    · exact (right split).imp fun _ opens => .seqRight ⟨_, one⟩ opens
  | more one two left right =>
    rintro before after whole
    rcases append_eq_append_cons whole with ⟨rest, split, rfl⟩ | ⟨first, rfl, split⟩
    · exact (left split).imp fun _ opens => .head opens ⟨_, two⟩
    · exact (right split).imp fun _ opens => .tail ⟨_, one⟩ opens
  | block inner ih =>
    rintro before after whole
    rcases List.cons_eq_append_iff.mp whole with ⟨rfl, same⟩ | ⟨before, rfl, behind⟩
    · obtain rfl := (List.cons.inj same).2
      exact ⟨0, .opening ⟨_, inner⟩⟩
    · rcases append_eq_append_cons behind with ⟨rest, split, rfl⟩ | ⟨first, -, split⟩
      · obtain ⟨k, opens⟩ := ih split
        exact ⟨k + 1, .inside opens⟩
      · -- The closing brace of the block is not an opening one.
        have held : Token.mark .leftBrace ∈ first ++ .mark .leftBrace :: after := by simp
        rw [← split, List.mem_singleton] at held
        contradiction

theorem Derivable.exists_opens (derived : Derivable a (before ++ .mark .leftBrace :: after)) :
    ∃ k, Opens k a before after := by
  obtain ⟨depth, derived⟩ := derived
  exact derived.exists_opens rfl

end Opens

/-! ### The first brace inside too many blocks -/

section TooDeep

variable {limit depth : Nat} {a : Phrase} {before after ts : List Token}

theorem NestsWithin.of_infix {part : List Token} (nests : NestsWithin limit ts)
    (inside : part <:+: ts) : NestsWithin limit part :=
  fun inner within => nests inner (within.trans inside)

/-- A brace inside `limit` blocks or more opens too many of them. -/
theorem Opens.not_nestsWithin (opens : Opens depth a before after) (deep : limit ≤ depth) :
    ¬ NestsWithin limit (before ++ [.mark .leftBrace]) := by
  intro nests
  have bound := nests _ (List.infix_refl _)
  have count := opens.count_leftBrace
  simp at bound
  omega

/-- If too many blocks are open behind an opening brace of a derivation, but nowhere before it, then
the brace stands inside `limit` blocks or more. -/
theorem Opens.limit_le (opens : Opens depth a before after) (nests : NestsWithin limit before)
    (full : ¬ NestsWithin limit (before ++ [.mark .leftBrace])) : limit ≤ depth := by
  by_contra room
  refine full fun part inside => ?_
  rcases List.infix_concat_iff.mp inside with ⟨front, whole⟩ | within
  · -- What stands before the part closes no block that was not opened there.
    have ahead : front <+: before ++ .mark .leftBrace :: after :=
      (List.prefix_append front part).trans (whole ▸ prefix_append_cons after)
    have bound := opens.derivable.balanced.front front ahead
    have lefts := congrArg (List.count (Token.mark .leftBrace)) whole
    have rights := congrArg (List.count (Token.mark .rightBrace)) whole
    have count := opens.count_leftBrace
    simp at lefts rights
    omega
  · exact nests part within

/-- Where no part opens too many blocks, no brace is inside too many. -/
theorem Opens.length_le {front rest : List Token} (opens : Opens depth a before after)
    (deep : limit ≤ depth) (whole : before ++ .mark .leftBrace :: after = front ++ rest)
    (nests : NestsWithin limit front) : front.length ≤ before.length := by
  by_contra earlier
  have through : before ++ [.mark .leftBrace] <+: front ++ rest :=
    whole ▸ prefix_append_cons after
  have inside : before ++ [.mark .leftBrace] <+: front :=
    List.prefix_of_prefix_length_le through (List.prefix_append front rest) (by simp; omega)
  exact opens.not_nestsWithin deep (nests.of_infix inside.isInfix)

end TooDeep

/-! ### Refused for its nesting -/

/-- The token with index `n` in a row is an opening brace, and a derivation has it inside `depth`
open blocks. -/
def OpensAt (depth : Nat) (a : Phrase) (ts : List Token) (n : Nat) : Prop :=
  ∃ before after, ts = before ++ .mark .leftBrace :: after ∧ before.length = n ∧
    Opens depth a before after

/-- The first brace of a derivation that stands inside `limit` blocks or more. -/
structure FirstTooDeep (limit : Nat) (a : Phrase) (ls : List Lexeme) (brace : Lexeme) (n : Nat) :
    Prop where
  here : ls[n]? = some brace
  deep : ∃ depth, limit ≤ depth ∧ OpensAt depth a (ls.map Lexeme.token) n
  first : ∀ m depth, limit ≤ depth → OpensAt depth a (ls.map Lexeme.token) m → n ≤ m

section Refused

variable {a : Phrase} {ls : List Lexeme} {brace : Lexeme} {fault : SyntaxFault}

/-- The nesting check finds the first brace of a derivation that stands inside too many blocks. -/
theorem exists_firstTooDeep (derived : Derivable a (ls.map Lexeme.token))
    (found : firstTooDeep? 0 ls = some brace) : ∃ n, FirstTooDeep nestingLimit a ls brace n := by
  obtain ⟨front, rest, rfl, left, passes, stops⟩ := exists_of_firstTooDeep? found
  have split : (front ++ brace :: rest).map Lexeme.token =
      front.map Lexeme.token ++ .mark .leftBrace :: rest.map Lexeme.token := by
    rw [List.map_append, List.map_cons, left]
  have nests : NestsWithin nestingLimit (front.map Lexeme.token) :=
    firstTooDeep?_zero_eq_none_iff.mp passes
  have full : ¬ NestsWithin nestingLimit (front.map Lexeme.token ++ [.mark .leftBrace]) := by
    intro nests
    have spelled : (front ++ [brace]).map Lexeme.token =
        front.map Lexeme.token ++ [.mark .leftBrace] := by
      rw [List.map_append, List.map_singleton, left]
    rw [← spelled, ← firstTooDeep?_zero_eq_none_iff, stops] at nests
    contradiction
  rw [split] at derived
  obtain ⟨depth, opens⟩ := derived.exists_opens
  refine ⟨front.length, by simp,
    ⟨depth, opens.limit_le nests full, _, _, split, List.length_map _, opens⟩, ?_⟩
  rintro m k deep ⟨before, after, whole, rfl, other⟩
  have le := other.length_le deep (whole.symm.trans split) nests
  rwa [List.length_map] at le

/-- What is derived is refused by the nesting check or not at all. -/
theorem firstTooDeep?_of_refused (derived : Derivable (.rule .project) (ls.map Lexeme.token))
    (refused : ProjectBlock.ofLexemes ls = .error fault) :
    ∃ brace, firstTooDeep? 0 ls = some brace ∧ fault = .tooDeep brace := by
  cases found : firstTooDeep? 0 ls with
  | none =>
    have nests := firstTooDeep?_zero_eq_none_iff.mp found
    exact absurd derived (not_derivable_of_fault nests refused)
  | some brace =>
    rw [ProjectBlock.ofLexemes, found] at refused
    exact ⟨brace, rfl, (Except.error.inj refused).symm⟩

/-- A project is refused for its nesting exactly if one of its braces stands inside too many
blocks. -/
theorem exists_nestingTooDeep_iff (derived : Derivable (.rule .project) (ls.map Lexeme.token)) :
    (∃ fault, ProjectBlock.ofLexemes ls = .error fault ∧
        fault.diagnostic.code = .nestingTooDeep) ↔
      ∃ n depth, nestingLimit ≤ depth ∧
        OpensAt depth (.rule .project) (ls.map Lexeme.token) n := by
  constructor
  · rintro ⟨fault, refused, -⟩
    obtain ⟨brace, found, -⟩ := firstTooDeep?_of_refused derived refused
    obtain ⟨n, first⟩ := exists_firstTooDeep derived found
    exact ⟨n, first.deep⟩
  · rintro ⟨n, depth, deep, before, after, whole, -, opens⟩
    cases found : firstTooDeep? 0 ls with
    | none =>
      have nests := firstTooDeep?_zero_eq_none_iff.mp found
      rw [whole] at nests
      exact absurd (nests.of_infix (prefix_append_cons after).isInfix) (opens.not_nestsWithin deep)
    | some brace =>
      exact ⟨.tooDeep brace, by rw [ProjectBlock.ofLexemes, found], rfl⟩

end Refused

/-- A fault is the only thing that reading blocks reports about a text. -/
theorem parser_diagnostics_of_fault {text : String} {fault : SyntaxFault}
    (refused : ProjectBlock.ofLexemes (scan text.toList).lexemes = .error fault) :
    (tolerant text).diagnostics.filter (·.phase = .parser) = [fault.diagnostic] := by
  have lexical : (scan text.toList).diagnostics.filter (·.phase = .parser) = [] :=
    List.filter_eq_nil_iff.mpr fun d found => by simp [(scan_stage _ d found).1.1]
  have own : fault.diagnostic.phase = .parser := fault.diagnostic_stage.1.1
  rw [tolerant_of_fault refused, List.filter_append, lexical, List.nil_append]
  exact List.filter_cons_of_pos (by simp [own])

end Wireframe
