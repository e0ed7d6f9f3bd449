import Wireframe.Proofs.Hierarchy

/-!
# Looking up a position

The entry that is found at a position is the innermost one there. Ranges include both of their ends,
so entries that stand side by side can share a position. Of two entries neither of which lies in
the other, one stops before the other one starts, so that where they meet they only touch. Of the
entries at a position, all others therefore lie around the deepest one or touch the position.

## Main definitions

* `SourceMap.Laminar` — parents cover their children, and siblings do not overlap.
* `CodeRange.Touches` — a range starts or stops at a position.
* `SourceMap.Innermost` — an entry is the innermost one at a position.

## Main results

* `SourceMap.Deepest.foldl` — the scan for a position keeps the deepest entry seen there.
* `SourceMap.Laminar.apart` — of entries neither of which lies in the other, one stops first.
* `SourceMap.Laminar.innermost` — the entry that is found at a position is the innermost one.
* `sourceMap_lookup` — this is so in the source map of every text that defines no name twice.
-/

namespace Wireframe

/-! ### Ranges -/

section Ranges

variable {p q r : Position}

theorem Position.NoLater.trans (first : p.NoLater q) (second : q.NoLater r) : p.NoLater r where
  place := by
    have before := first.place
    have after := second.place
    unfold Position.Before at *
    omega
  bytes := by
    obtain ⟨o, o', atP, atQ, le⟩ := first.bytes
    obtain ⟨o₁, o₂, atQ', atR, le'⟩ := second.bytes
    obtain rfl := Option.some.inj (atQ.symm.trans atQ')
    exact ⟨o, o₂, atP, atR, Nat.le_trans le le'⟩

theorem CodeRange.contains_iff {r : CodeRange} {line column : Nat} :
    r.Contains line column ↔
      (r.start.line < line ∨ r.start.line = line ∧ r.start.column ≤ column) ∧
        (line < r.stop.line ∨ line = r.stop.line ∧ column ≤ r.stop.column) := by
  simp only [Contains, Position.Before]
  omega

/-- What a range contains is contained in every range that covers it. -/
theorem CodeRange.Covers.contains {outer inner : CodeRange} (covers : outer.Covers inner)
    {line column : Nat} (contains : inner.Contains line column) : outer.Contains line column := by
  have start := covers.start.place
  have stop := covers.stop.place
  rw [CodeRange.contains_iff] at *
  unfold Position.Before at *
  omega

/-- A position is the start or the stop of a range. -/
def CodeRange.Touches (r : CodeRange) (line column : Nat) : Prop :=
  (r.start.line = line ∧ r.start.column = column) ∨ (r.stop.line = line ∧ r.stop.column = column)

/-- Two ranges one of which stops before the other one starts can only meet at their ends. -/
theorem CodeRange.touches_of_contains {first second : CodeRange}
    (apart : first.stop.NoLater second.start) {line column : Nat}
    (inFirst : first.Contains line column) (inSecond : second.Contains line column) :
    first.Touches line column ∧ second.Touches line column := by
  have order := apart.place
  rw [CodeRange.contains_iff] at *
  unfold Position.Before at *
  unfold CodeRange.Touches
  omega

/-- A token of a text starts before it stops. -/
theorem start_noLater_stop {text : List Char} {l : Lexeme} (inside : l ∈ (scan text).lexemes) :
    l.range.start.NoLater l.range.stop := by
  have boundaries := onBoundaries_of_mem inside
  rw [range_of_mem inside]
  exact noLater_position boundaries.start boundaries.stop
    (Nat.le_of_lt (start_lt_stop_of_mem_lexemes inside))

/-- What lies between the braces of an entry lies in the entry. -/
theorem Entry.Encloses.covers {text : List Char} {e f : Entry}
    (encloses : Entry.Encloses (scan text).lexemes e f) (parts : e.CoversParts) :
    e.range.Covers f.range := by
  obtain ⟨opening, opens, closing, closes, -, -, body, after, before⟩ := encloses
  have inside := parts.body _ (Option.mem_def.mpr body)
  exact
    { start := inside.start.trans ((start_noLater_stop opens).trans after)
      stop := before.trans ((start_noLater_stop closes).trans inside.stop) }

end Ranges

namespace SourceMap

/-! ### Above and below -/

section Paths

variable {map : SourceMap} {i j k : Nat}

theorem mem_pathTo_self (map : SourceMap) (i : Nat) : i ∈ map.pathTo i := by
  match around : map.parentIndex? i with
  | none => simp [pathTo_of_none around]
  | some ⟨j, earlier⟩ => simp [pathTo_of_some around]

theorem mem_pathTo_iff_of_some {earlier : j < i}
    (around : map.parentIndex? i = some ⟨j, earlier⟩) :
    k ∈ map.pathTo i ↔ k ∈ map.pathTo j ∨ k = i := by
  simp [pathTo_of_some around]

/-- What lies around an entry lies less deep. -/
theorem depthAt_lt_of_mem_pathTo (above : j ∈ map.pathTo i) (other : j ≠ i) :
    map.depthAt j < map.depthAt i := by
  induction i using parentInduction map with
  | outermost i around =>
    rw [pathTo_of_none around, List.mem_singleton] at above
    contradiction
  | inner i k earlier around ih =>
    rw [depthAt_of_some around]
    rcases (mem_pathTo_iff_of_some around).mp above with further | same
    · by_cases parent : j = k
      · rw [parent]
        exact Nat.lt_succ_self _
      · exact Nat.lt_succ_of_lt (ih further parent)
    · contradiction

end Paths

/-! ### Scanning for a position -/

/-- What the scan for a position keeps: an entry that is strictly deeper takes over. -/
def keepDeeper (map : SourceMap) (best : Option (Entry × Nat)) (next : Entry × Nat) :
    Option (Entry × Nat) :=
  match best with
  | none => some (next.1, map.depthAt next.2)
  | some (_, depth) =>
    if depth < map.depthAt next.2 then some (next.1, map.depthAt next.2) else best

/-- The entry that is kept is one of those seen, and none of them lies deeper. -/
inductive Deepest (map : SourceMap) : List (Entry × Nat) → Option (Entry × Nat) → Prop
  | none : Deepest map [] none
  | some {seen : List (Entry × Nat)} {e : Entry} {i : Nat} (held : (e, i) ∈ seen)
      (bound : ∀ x ∈ seen, map.depthAt x.2 ≤ map.depthAt i) :
      Deepest map seen (some (e, map.depthAt i))

namespace Deepest

variable {map : SourceMap} {seen : List (Entry × Nat)} {best : Option (Entry × Nat)}

/-- One more entry is seen. -/
theorem keepDeeper (deepest : map.Deepest seen best) (next : Entry × Nat) :
    map.Deepest (seen ++ [next]) (map.keepDeeper best next) := by
  cases deepest with
  | none => exact .some List.mem_cons_self (by simp)
  | @some _ e i held bound =>
    have last : next ∈ seen ++ [next] := List.mem_append_right _ List.mem_cons_self
    rw [SourceMap.keepDeeper]
    split
    next deeper =>
      refine .some last (List.forall_mem_append.mpr ⟨fun x inside => ?_, by simp⟩)
      exact Nat.le_trans (bound x inside) (Nat.le_of_lt deeper)
    next other =>
      refine .some (List.mem_append_left _ held) (List.forall_mem_append.mpr ⟨bound, ?_⟩)
      exact List.forall_mem_singleton.mpr (Nat.le_of_not_lt other)

/-- All entries of a list are seen. -/
theorem foldl (deepest : map.Deepest seen best) (others : List (Entry × Nat)) :
    map.Deepest (seen ++ others) (others.foldl map.keepDeeper best) := by
  induction others generalizing seen best with
  | nil => simpa using deepest
  | cons next others ih => simpa using ih (deepest.keepDeeper next)

end Deepest

section At

variable {map : SourceMap} {line column : Nat}

theorem exists_deepest (map : SourceMap) (line column : Nat) :
    ∃ best, map.at? line column = best.map Prod.fst ∧
      map.Deepest (map.entries.zipIdx.filter fun x => decide (x.1.range.Contains line column))
        best :=
  ⟨List.foldl map.keepDeeper none _, rfl, by simpa using Deepest.none.foldl _⟩

theorem mem_containing_iff {e : Entry} {i : Nat} :
    (e, i) ∈ map.entries.zipIdx.filter (fun x => decide (x.1.range.Contains line column)) ↔
      map.entries[i]? = some e ∧ e.range.Contains line column := by
  rw [List.mem_filter, List.mem_zipIdx_iff_getElem?, decide_eq_true_iff]

/-- Nothing is found where no entry is. -/
theorem at?_eq_none_iff :
    map.at? line column = none ↔ ∀ e ∈ map.entries, ¬ e.range.Contains line column := by
  obtain ⟨best, found, deepest⟩ := map.exists_deepest line column
  rw [found, Option.map_eq_none_iff]
  constructor
  · rintro rfl e inside contains
    obtain ⟨i, here⟩ := List.mem_iff_getElem?.mp inside
    have seen := mem_containing_iff.mpr ⟨here, contains⟩
    generalize map.entries.zipIdx.filter _ = containing at deepest seen
    cases deepest
    contradiction
  · intro absent
    generalize listed : map.entries.zipIdx.filter _ = containing at deepest
    cases deepest with
    | none => rfl
    | @some _ e i held =>
      rw [← listed] at held
      obtain ⟨here, contains⟩ := mem_containing_iff.mp held
      exact absurd contains (absent e (List.mem_of_getElem? here))

/-- What is found at a position is an entry there, and none there lies deeper. -/
theorem exists_of_at? {e : Entry} (found : map.at? line column = some e) :
    ∃ i, map.entries[i]? = some e ∧ e.range.Contains line column ∧
      ∀ {j : Nat} {f : Entry}, map.entries[j]? = some f → f.range.Contains line column →
        map.depthAt j ≤ map.depthAt i := by
  obtain ⟨best, same, deepest⟩ := map.exists_deepest line column
  rw [same] at found
  generalize listed : map.entries.zipIdx.filter _ = containing at deepest
  cases deepest with
  | none => contradiction
  | @some _ f i held bound =>
    obtain rfl := Option.some.inj found
    rw [← listed] at held bound
    obtain ⟨here, contains⟩ := mem_containing_iff.mp held
    exact ⟨i, here, contains, fun there inside => bound _ (mem_containing_iff.mpr ⟨there, inside⟩)⟩

end At

/-! ### Laminar ranges -/

/-- The ranges of the entries are a tree as the entries are: parents cover their children, and
siblings stand one behind the other. -/
structure Laminar (map : SourceMap) : Prop where
  linked : map.Linked
  /-- No two entries share an id. -/
  distinct : (map.entries.map Entry.id).Nodup
  covers : ∀ e ∈ map.entries, ∀ f ∈ map.entries, f.parent = some e.id → e.range.Covers f.range
  siblings : map.entries.Pairwise fun e f =>
    e.parent = f.parent → e.range.stop.NoLater f.range.start

/-- An entry is the innermost one at a position: it and all entries around it are there, none of its
children is, and any other entry only touches the position. -/
structure Innermost (map : SourceMap) (line column : Nat) (e : Entry) : Prop where
  listed : e ∈ map.entries
  here : e.range.Contains line column
  last : (map.path e.id).getLast? = some e
  path : ∀ f ∈ map.path e.id, f.range.Contains line column
  children : ∀ f ∈ map.children e.id, ¬ f.range.Contains line column
  others : ∀ f ∈ map.entries, f ∉ map.path e.id → f.range.Contains line column →
    f.range.Touches line column

namespace Laminar

variable {map : SourceMap} (laminar : map.Laminar)

include laminar

section Pairs

variable {i j : Nat} {e f : Entry} (here : map.entries[i]? = some e)
  (there : map.entries[j]? = some f)

include here

/-- An id stands for the one entry that bears it. -/
theorem indexOf?_eq : map.indexOf? e.id = some i := by
  obtain ⟨k, g, index, -, held, same⟩ := exists_indexOf? here
  have first : (map.entries.map Entry.id)[k]? = some e.id := by
    rw [List.getElem?_map, held, Option.map_some, same]
  have second : (map.entries.map Entry.id)[i]? = some e.id := by
    rw [List.getElem?_map, here, Option.map_some]
  have within : k < (map.entries.map Entry.id).length := (List.getElem?_eq_some_iff.mp first).1
  rw [index, (List.getElem?_inj within laminar.distinct).mp (first.trans second.symm)]

theorem path_eq : map.path e.id = (map.pathTo i).filterMap (map.entries[·]?) := by
  rw [path, laminar.indexOf?_eq here]

/-- An entry is the first one, or it lies in the one at the index of its parent. -/
theorem parent_cases : i = 0 ∨ ∃ k p, ∃ earlier : k < i,
    map.parentIndex? i = some ⟨k, earlier⟩ ∧ map.entries[k]? = some p ∧ e.parent = some p.id ∧
      p.range.Covers e.range := by
  rcases laminar.linked.parentIndex? here with ⟨first, -⟩ | ⟨k, p, earlier, around, held, parent, -⟩
  · exact .inl first
  · exact .inr ⟨k, p, earlier, around, held, parent, laminar.covers p (List.mem_of_getElem? held) e
      (List.mem_of_getElem? here) parent⟩

/-- Everything lies in the first entry. -/
theorem zero_mem_pathTo : 0 ∈ map.pathTo i := by
  induction i using parentInduction map generalizing e with
  | outermost i around =>
    rcases laminar.parent_cases here with rfl | ⟨k, p, earlier, known, -⟩
    · exact mem_pathTo_self map 0
    · rw [around] at known
      contradiction
  | inner i k earlier around ih =>
    have within : k < map.entries.length :=
      Nat.lt_trans earlier (List.getElem?_eq_some_iff.mp here).1
    exact (mem_pathTo_iff_of_some around).mpr (.inl (ih (List.getElem?_eq_getElem within)))

/-- Where an entry is, all entries around it are. -/
theorem contains_of_mem_pathTo {line column : Nat} (contains : e.range.Contains line column)
    {j : Nat} {f : Entry} (above : j ∈ map.pathTo i) (there : map.entries[j]? = some f) :
    f.range.Contains line column := by
  induction i using parentInduction map generalizing e with
  | outermost i around =>
    rw [pathTo_of_none around, List.mem_singleton] at above
    rw [above, here] at there
    exact Option.some.inj there ▸ contains
  | inner i k earlier around ih =>
    rcases (mem_pathTo_iff_of_some around).mp above with further | same
    · rcases laminar.parent_cases here with rfl | ⟨l, p, before, known, held, -, covers⟩
      · exact absurd earlier (Nat.not_lt_zero k)
      · rw [around] at known
        obtain rfl : k = l := congrArg Subtype.val (Option.some.inj known)
        exact ih held (covers.contains contains) further
    · rw [same, here] at there
      exact Option.some.inj there ▸ contains

include there

/-- Of two entries in the same entry the later one stands behind the earlier one. -/
theorem siblings_apart (same : e.parent = f.parent) (other : i ≠ j) :
    e.range.stop.NoLater f.range.start ∨ f.range.stop.NoLater e.range.start := by
  obtain ⟨inI, rfl⟩ := List.getElem?_eq_some_iff.mp here
  obtain ⟨inJ, rfl⟩ := List.getElem?_eq_some_iff.mp there
  have ordered := List.pairwise_iff_getElem.mp laminar.siblings
  rcases Nat.lt_or_gt_of_ne other with before | after
  · exact .inl (ordered i j inI inJ before same)
  · exact .inr (ordered j i inJ inI after same.symm)

/-- Of two entries neither of which lies in the other, one stops before the other one starts. -/
theorem apart (notAbove : i ∉ map.pathTo j) (notBelow : j ∉ map.pathTo i) :
    e.range.stop.NoLater f.range.start ∨ f.range.stop.NoLater e.range.start := by
  -- By induction on both indices: what is apart from a parent is apart from its children.
  induction total : i + j using Nat.strong_induction_on generalizing i j e f with
  | h n ih =>
    rcases laminar.parent_cases here with rfl | ⟨k, p, beforeI, aroundI, heldI, parentI, coversI⟩
    · exact absurd (laminar.zero_mem_pathTo there) notAbove
    rcases laminar.parent_cases there with rfl | ⟨l, q, beforeJ, aroundJ, heldJ, parentJ, coversJ⟩
    · exact absurd (laminar.zero_mem_pathTo here) notBelow
    have outsideJ : i ∉ map.pathTo l := fun above =>
      notAbove ((mem_pathTo_iff_of_some aroundJ).mpr (.inl above))
    have outsideI : j ∉ map.pathTo k := fun above =>
      notBelow ((mem_pathTo_iff_of_some aroundI).mpr (.inl above))
    by_cases aboveI : l ∈ map.pathTo i
    · by_cases aboveJ : k ∈ map.pathTo j
      · -- Each parent lies around the other one, so the two are siblings.
        have lk : l ∈ map.pathTo k := by
          rcases (mem_pathTo_iff_of_some aroundI).mp aboveI with further | rfl
          · exact further
          · exact absurd (mem_pathTo_self map l) outsideJ
        have kl : k ∈ map.pathTo l := by
          rcases (mem_pathTo_iff_of_some aroundJ).mp aboveJ with further | rfl
          · exact further
          · exact absurd (mem_pathTo_self map k) outsideI
        obtain rfl := Nat.le_antisymm (le_of_mem_pathTo lk) (le_of_mem_pathTo kl)
        rw [heldI] at heldJ
        obtain rfl := Option.some.inj heldJ
        refine laminar.siblings_apart here there (parentI.trans parentJ.symm) ?_
        rintro rfl
        exact notAbove (mem_pathTo_self map i)
      · refine (ih (k + j) (by omega) heldI there aboveJ outsideI rfl).imp ?_ ?_
        · exact fun behind => coversI.stop.trans behind
        · exact fun behind => behind.trans coversI.start
    · refine (ih (i + l) (by omega) here heldJ outsideJ aboveI rfl).imp ?_ ?_
      · exact fun behind => behind.trans coversJ.start
      · exact fun behind => coversJ.stop.trans behind

end Pairs

/-- Nothing is found outside the first entry. -/
theorem at?_eq_none_iff {line column : Nat} {root : Entry}
    (first : map.entries.head? = some root) :
    map.at? line column = none ↔ ¬ root.range.Contains line column := by
  rw [List.head?_eq_getElem?] at first
  rw [SourceMap.at?_eq_none_iff]
  constructor
  · exact fun absent => absent root (List.mem_of_getElem? first)
  · intro outside e inside contains
    obtain ⟨i, here⟩ := List.mem_iff_getElem?.mp inside
    exact outside
      (laminar.contains_of_mem_pathTo here contains (laminar.zero_mem_pathTo here) first)

section Deepest

variable {line column i : Nat} {e f : Entry} (here : map.entries[i]? = some e)
  (deepest : ∀ {j : Nat} {f : Entry}, map.entries[j]? = some f →
    f.range.Contains line column → map.depthAt j ≤ map.depthAt i)

include here deepest

/-- None of the children of a deepest entry is there, for they lie deeper. -/
theorem not_contains_of_mem_children (child : f ∈ map.children e.id) :
    ¬ f.range.Contains line column := by
  intro within
  obtain ⟨inside, parent⟩ := List.mem_filter.mp child
  obtain ⟨j, there⟩ := List.mem_iff_getElem?.mp inside
  rcases laminar.linked.parentIndex? there with
    ⟨-, none, -⟩ | ⟨k, p, earlier, around, -, same, index⟩
  · rw [none] at parent
    contradiction
  · rw [same] at parent
    obtain own : p.id = e.id := Option.some.inj (eq_of_beq parent)
    rw [own, laminar.indexOf?_eq here] at index
    obtain rfl := Option.some.inj index
    have deeper := deepest there within
    rw [depthAt_of_some around] at deeper
    exact Nat.not_succ_le_self _ deeper

/-- An entry that is there too lies around a deepest one, or they only meet. -/
theorem touches_of_not_mem_path (contains : e.range.Contains line column)
    (inside : f ∈ map.entries) (outside : f ∉ map.path e.id)
    (within : f.range.Contains line column) : f.range.Touches line column := by
  obtain ⟨j, there⟩ := List.mem_iff_getElem?.mp inside
  have notBelow : j ∉ map.pathTo i := by
    intro above
    rw [laminar.path_eq here] at outside
    exact outside (List.mem_filterMap.mpr ⟨j, above, there⟩)
  have notAbove : i ∉ map.pathTo j := by
    intro above
    refine Nat.not_lt.mpr (deepest there within) (depthAt_lt_of_mem_pathTo above ?_)
    rintro rfl
    exact notBelow above
  rcases laminar.apart here there notAbove notBelow with behind | before
  · exact (CodeRange.touches_of_contains behind contains within).2
  · exact (CodeRange.touches_of_contains before within contains).1

end Deepest

/-- The entry that is found at a position is the innermost one there. -/
theorem innermost {line column : Nat} {e : Entry} (found : map.at? line column = some e) :
    map.Innermost line column e := by
  obtain ⟨i, here, contains, deepest⟩ := exists_of_at? found
  have path := laminar.path_eq here
  refine ⟨List.mem_of_getElem? here, contains, ?last, ?path,
    fun f => laminar.not_contains_of_mem_children here deepest,
    fun f => laminar.touches_of_not_mem_path here deepest contains⟩
  case last =>
    rw [path]
    exact (laminar.linked.isPathTo here).last
  case path =>
    intro f passed
    rw [path] at passed
    obtain ⟨j, above, there⟩ := List.mem_filterMap.mp passed
    exact laminar.contains_of_mem_pathTo here contains above there

end Laminar

end SourceMap

/-! ### The source map of a text -/

/-- Where no two entries share an id, an entry lies between the braces of every one that bears the
id of its parent. -/
theorem SourceMap.Nested.encloses {map : SourceMap} {lexemes : List Lexeme}
    (nested : map.Nested lexemes) (distinct : (map.entries.map Entry.id).Nodup) {e f : Entry}
    (inE : e ∈ map.entries) (inF : f ∈ map.entries) (parent : f.parent = some e.id) :
    Entry.Encloses lexemes e f := by
  obtain ⟨i, here⟩ := List.mem_iff_getElem?.mp inF
  rcases nested.exists_parent here with ⟨-, none⟩ | ⟨j, p, -, there, around, encloses⟩
  · rw [none] at parent
    contradiction
  · obtain rfl : p = e := List.inj_on_of_nodup_map distinct (List.mem_of_getElem? there) inE
      (Option.some.inj (around.symm.trans parent))
    exact encloses

/-- If no name is defined twice, no two entries share an id. -/
theorem ProjectBlock.nodup_entry_ids (project : ProjectBlock) (text : List Char)
    (names : (project.lowered.definitions.map Definition.name).Nodup) :
    ((project.entries text).map Entry.id).Nodup := by
  rw [← project.filterMap_definedName?_entries text] at names
  exact nodup_ids (fun _ _ _ split => entry_id split) (project.pairwise_entry_ids text) names

/-- The entries of a project that was read are a tree, by their ranges as well. -/
theorem ProjectBlock.laminar_of_read {text : List Char} {project : ProjectBlock}
    (read : ProjectBlock.ofLexemes (scan text).lexemes = .ok project)
    (names : (project.lowered.definitions.map Definition.name).Nodup) :
    (SourceMap.mk (project.entries text)).Laminar := by
  have nested := nested_of_read read
  have distinct := project.nodup_entry_ids text names
  refine ⟨linked_of_read read, distinct, ?_, nested.siblings⟩
  exact fun e inE f inF parent =>
    (nested.encloses distinct inE inF parent).covers (nested.parts e inE)

/-- In a text that defines no name twice, nothing is found at a position outside the project, and
what is found at any other one is the innermost entry there. -/
theorem sourceMap_lookup {text : String} {project : Project} {map : SourceMap}
    (built : (tolerant text).built = some (project, map))
    (names : (project.definitions.map Definition.name).Nodup) (line column : Nat) :
    (∃ root others, map.entries = root :: others ∧ root.kind = .project ∧
      (map.at? line column = none ↔ ¬ root.range.Contains line column)) ∧
      ∀ e, map.at? line column = some e → map.Innermost line column e := by
  obtain ⟨block, read, rfl, rfl⟩ := exists_block_of_built built
  have laminar := ProjectBlock.laminar_of_read read names
  obtain ⟨root, others, entries, kind, -⟩ := laminar.linked.root
  refine ⟨⟨root, others, entries, kind, laminar.at?_eq_none_iff ?_⟩, fun e => laminar.innermost⟩
  rw [entries, List.head?_cons]

/-- A project in which settings and a screen stand side by side. -/
def abuttingText : String :=
  "project \"é\" \x7b\ncolors \x7b a: 1 \x7dscreen Main \x7b layout row \x7b \x7d \x7d \x7d\n"

/-- Settings and the screen behind them meet at a position. -/
theorem sourceMap_lookup_abuttingText : ∃ project map e,
    (tolerant abuttingText).built = some (project, map) ∧
      (project.definitions.map Definition.name).Nodup ∧ map.at? 2 15 = some e ∧ e.id = "colors" ∧
      map.Innermost 2 15 e := by
  have found : (tolerant abuttingText).built.map
      (fun built => (built.1.definitions.map Definition.name, (built.2.at? 2 15).map Entry.id)) =
      some ([], some "colors") := by decide +kernel
  obtain ⟨⟨project, map⟩, same, looked⟩ := Option.map_eq_some_iff.mp found
  obtain ⟨names, id⟩ := Prod.mk.inj looked
  obtain ⟨e, here, id⟩ := Option.map_eq_some_iff.mp id
  have distinct : (project.definitions.map Definition.name).Nodup := names ▸ List.nodup_nil
  exact ⟨project, map, e, same, distinct, here, id, (sourceMap_lookup same distinct 2 15).2 e here⟩

end Wireframe
