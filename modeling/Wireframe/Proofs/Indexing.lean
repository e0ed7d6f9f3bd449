import Wireframe.Proofs.Lookup
import Wireframe.SourceMap.Index

/-!
# Answers from an index

The index of a source map answers as the map does, whatever the map holds: ids may clash, parents
may be missing or come late. The index is built in one pass, and what it holds about an entry is
settled when the entry is added. That is enough because later entries change nothing for earlier
ones: an id goes on to stand for its first entry, and only an earlier entry can be around another.

## Main definitions

* `SourceMap.Index.IsOf` — what an index holds is right for a source map.
* `SourceMap.Index.Answers` — an index and a source map give the same answers.

## Main results

* `SourceMap.depthAt_append` — later entries do not change how deep the earlier ones lie.
* `SourceMap.Index.IsOf.add` — the index stays right when an entry is added.
* `SourceMap.isOf_index` — so the index of a source map is right for it.
* `SourceMap.answers_index` — every question has the same answer from either.
-/

namespace Wireframe

namespace SourceMap

/-! ### Later entries -/

section Later

variable {map : SourceMap} {entries others : List Entry} {i : Nat}

theorem indexOf?_append (entries others : List Entry) (id : NodeId) :
    (SourceMap.mk (entries ++ others)).indexOf? id =
      ((SourceMap.mk entries).indexOf? id).or
        (((SourceMap.mk others).indexOf? id).map (· + entries.length)) :=
  List.findIdx?_append

theorem lt_of_indexOf? {id : NodeId} (found : map.indexOf? id = some i) :
    i < map.entries.length := by
  obtain ⟨within, -⟩ := List.findIdx?_eq_some_iff_getElem.mp found
  exact within

/-- Where an id is looked up before a place, later entries do not matter. -/
theorem indexOf?_bind_append (upTo : i ≤ entries.length) (id : NodeId) :
    (((SourceMap.mk (entries ++ others)).indexOf? id).bind fun j =>
        if earlier : j < i then some (⟨j, earlier⟩ : { j : Nat // j < i }) else none) =
      ((SourceMap.mk entries).indexOf? id).bind fun j =>
        if earlier : j < i then some ⟨j, earlier⟩ else none := by
  rw [indexOf?_append]
  cases (SourceMap.mk entries).indexOf? id with
  | some j => rfl
  | none =>
    cases (SourceMap.mk others).indexOf? id with
    | none => rfl
    | some j =>
      -- The only entry with the id comes too late to be looked up from the place.
      have late : ¬ j + entries.length < i := by omega
      exact dif_neg late

theorem parentIndex?_append (within : i < entries.length) :
    (SourceMap.mk (entries ++ others)).parentIndex? i = (SourceMap.mk entries).parentIndex? i := by
  simp only [SourceMap.parentIndex?, List.getElem?_append_left within,
    indexOf?_bind_append (Nat.le_of_lt within)]

/-- Later entries do not change how deep the earlier ones lie. -/
theorem depthAt_append (within : i < entries.length) :
    (SourceMap.mk (entries ++ others)).depthAt i = (SourceMap.mk entries).depthAt i := by
  -- Up the parents, which are the same ones and come even earlier.
  induction i using parentInduction (SourceMap.mk entries) with
  | outermost i around =>
    rw [depthAt_of_none around, depthAt_of_none ((parentIndex?_append within).trans around)]
  | inner i j earlier around ih =>
    rw [depthAt_of_some around, depthAt_of_some ((parentIndex?_append within).trans around),
      ih (Nat.lt_trans earlier within)]

/-- The last entry lies below the first one with its parent's id, if that comes before it. -/
theorem depthAt_concat (entries : List Entry) (e : Entry) :
    (SourceMap.mk (entries ++ [e])).depthAt entries.length =
      match e.parent.bind (SourceMap.mk entries).indexOf? with
      | none => 0
      | some j => (SourceMap.mk entries).depthAt j + 1 := by
  have around : (SourceMap.mk (entries ++ [e])).parentIndex? entries.length =
      (e.parent.bind (SourceMap.mk entries).indexOf?).bind fun j =>
        if earlier : j < entries.length then some ⟨j, earlier⟩ else none := by
    simp only [SourceMap.parentIndex?, List.getElem?_concat_length, Option.bind_some,
      indexOf?_bind_append (Nat.le_refl _), Option.bind_assoc]
  cases parent : e.parent.bind (SourceMap.mk entries).indexOf? with
  | none =>
    rw [parent] at around
    exact depthAt_of_none around
  | some j =>
    obtain ⟨id, -, found⟩ := Option.bind_eq_some_iff.mp parent
    have earlier : j < entries.length := lt_of_indexOf? found
    rw [parent, Option.bind_some, dif_pos earlier] at around
    rw [depthAt_of_some around, depthAt_append earlier]

end Later

/-! ### Lists -/

/-- The places of what is sought in a list lead to it. -/
theorem filterMap_getElem?_findIdxs {α : Type} {p : α → Bool} (items : List α) :
    (items.findIdxs p).filterMap (items[·]?) = items.filter p := by
  -- From the end, where one more item leaves the places of the others as they are.
  induction items using List.reverseRecOn with
  | nil => rfl
  | append_singleton items item ih =>
    rw [List.findIdxs_append, List.filterMap_append, List.filter_append, ← ih]
    refine congrArg₂ _ (List.filterMap_congr fun i found => ?_) ?_
    · have within := List.lt_add_of_mem_findIdxs i found
      exact List.getElem?_append_left (by omega)
    · rw [List.findIdxs_singleton]
      cases sought : p item <;> simp [sought]

namespace Index

/-- What an index holds is right for a source map. -/
structure IsOf (index : Index) (map : SourceMap) : Prop where
  entries : index.entries.toList = map.entries
  first : ∀ id, index.first[id]? = map.indexOf? id
  inside : ∀ id, (index.inside.getD id #[]).toList = map.entries.findIdxs (·.parent == some id)
  depths : index.depths.toList = (List.range map.entries.length).map map.depthAt

variable {index : Index} {map : SourceMap}

namespace IsOf

theorem size (right : index.IsOf map) : index.entries.size = map.entries.length := by
  rw [← right.entries, Array.length_toList]

theorem getElem? (right : index.IsOf map) (i : Nat) : index.entries[i]? = map.entries[i]? := by
  rw [← right.entries, Array.getElem?_toList]

/-- A place behind all entries counts as an outermost one. -/
theorem getD_depths (right : index.IsOf map) (i : Nat) :
    index.depths.getD i 0 = map.depthAt i := by
  rw [Array.getD_eq_getD_getElem?, ← Array.getElem?_toList, right.depths, List.getElem?_map]
  by_cases within : i < map.entries.length
  · rw [List.getElem?_range within]
    rfl
  · have beyond : map.entries.length ≤ i := Nat.le_of_not_lt within
    have around : map.parentIndex? i = none := by
      rw [SourceMap.parentIndex?, List.getElem?_eq_none beyond, Option.bind_none]
    rw [List.getElem?_eq_none (by rwa [List.length_range]), depthAt_of_none around]
    rfl

/-! ### The pass over the entries -/

theorem empty : IsOf {} SourceMap.empty where
  entries := rfl
  first _ := Std.HashMap.getElem?_empty
  inside _ := by rw [Std.HashMap.getD_empty]; rfl
  depths := rfl

section Step

variable {entries : List Entry}

/-- An id that is there already goes on to stand for its first entry. -/
theorem first_add (right : index.IsOf (SourceMap.mk entries)) (e : Entry) (id : NodeId) :
    (index.add e).first[id]? = (SourceMap.mk (entries ++ [e])).indexOf? id := by
  have single : (SourceMap.mk [e]).indexOf? id = if e.id = id then some 0 else none := by
    simp [indexOf?]
  have known : e.id ∈ index.first ↔ ((SourceMap.mk entries).indexOf? e.id).isSome := by
    rw [Std.HashMap.mem_iff_isSome_getElem?, right.first]
  change (index.first.insertIfNew e.id index.entries.size)[id]? = _
  rw [Std.HashMap.getElem?_insertIfNew, right.size, right.first, indexOf?_append, single]
  by_cases same : e.id = id
  · rw [same] at known
    cases found : (SourceMap.mk entries).indexOf? id with
    | none => simp [same, known, found]
    | some j => simp [same, known, found]
  · simp [same]

theorem inside_add (right : index.IsOf (SourceMap.mk entries)) (e : Entry) (id : NodeId) :
    ((index.add e).inside.getD id #[]).toList =
      (entries ++ [e]).findIdxs (·.parent == some id) := by
  change ((index.addInside index.entries.size e.parent).getD id #[]).toList = _
  rw [List.findIdxs_append, ← right.inside, List.findIdxs_singleton]
  cases e.parent with
  | none => simp [addInside]
  | some parent =>
    rw [addInside, Std.HashMap.getD_insert]
    by_cases same : parent = id
    · simp [same, right.size]
    · simp [same]

theorem depthBelow_eq (right : index.IsOf (SourceMap.mk entries)) (e : Entry) :
    index.depthBelow e.parent = (SourceMap.mk (entries ++ [e])).depthAt entries.length := by
  have first : (index.first[·]?) = (SourceMap.mk entries).indexOf? := funext right.first
  rw [depthAt_concat, depthBelow, first]
  cases e.parent.bind (SourceMap.mk entries).indexOf? with
  | none => rfl
  | some i => exact congrArg (· + 1) (right.getD_depths i)

/-- The index stays right when an entry is added. -/
theorem add (right : index.IsOf (SourceMap.mk entries)) (e : Entry) :
    (index.add e).IsOf (SourceMap.mk (entries ++ [e])) where
  entries := by
    change (index.entries.push e).toList = _
    rw [Array.toList_push, right.entries]
  first := right.first_add e
  inside := right.inside_add e
  depths := by
    change (index.depths.push (index.depthBelow e.parent)).toList = _
    rw [Array.toList_push, right.depths, right.depthBelow_eq, List.length_append,
      List.length_singleton, List.range_succ, List.map_append, List.map_singleton]
    refine congrArg (· ++ _) (List.map_congr_left fun i within => ?_)
    exact (depthAt_append (List.mem_range.mp within)).symm

theorem foldl_add (right : index.IsOf (SourceMap.mk entries)) (others : List Entry) :
    (others.foldl Index.add index).IsOf (SourceMap.mk (entries ++ others)) := by
  induction others generalizing index entries with
  | nil => simpa using right
  | cons e others ih => simpa using ih (right.add e)

end Step

/-! ### Questions about the hierarchy -/

section Hierarchy

variable (right : index.IsOf map)

include right

theorem find?_eq (id : NodeId) : index.find? id = map.find? id := by
  rw [Index.find?, SourceMap.find?_eq, right.first]
  exact congrArg _ (funext right.getElem?)

theorem depth?_eq (id : NodeId) : index.depth? id = map.depth? id := by
  rw [Index.depth?, SourceMap.depth?, right.first]
  exact congrArg (Option.map · _) (funext right.getD_depths)

theorem children_eq (id : NodeId) : index.children id = map.children id := by
  rw [Index.children, right.inside, funext right.getElem?]
  exact filterMap_getElem?_findIdxs map.entries

theorem parent?_eq (id : NodeId) : index.parent? id = map.parent? id := by
  rw [Index.parent?, SourceMap.parent?, right.find?_eq, funext right.find?_eq]

theorem siblings_eq (id : NodeId) : index.siblings id = map.siblings id := by
  unfold Index.siblings SourceMap.siblings
  rw [right.find?_eq]
  cases (map.find? id).bind (·.parent) with
  | none => rfl
  | some parent => exact congrArg (List.filter _) (right.children_eq parent)

theorem parentIndex?_eq (i : Nat) : index.parentIndex? i = map.parentIndex? i := by
  simp only [Index.parentIndex?, SourceMap.parentIndex?, right.getElem?, right.first]

theorem pathOnto_eq (i : Nat) (below : List Entry) :
    index.pathOnto i below = (map.pathTo i).filterMap (map.entries[·]?) ++ below := by
  have here : ∀ i : Nat, (index.entries[i]?).toList = [i].filterMap (map.entries[·]?) := by
    intro i
    rw [right.getElem?]
    cases held : map.entries[i]? <;> simp [held]
  induction i using parentInduction map generalizing below with
  | outermost i around =>
    rw [pathOnto, right.parentIndex?_eq, around, pathTo_of_none around]
    exact congrArg (· ++ below) (here i)
  | inner i j earlier around ih =>
    rw [pathOnto, right.parentIndex?_eq, around, pathTo_of_some around, List.filterMap_append,
      List.append_assoc, ← here i]
    exact ih _

theorem path_eq (id : NodeId) : index.path id = map.path id := by
  rw [Index.path, SourceMap.path, right.first]
  cases map.indexOf? id with
  | none => rfl
  | some i => exact (right.pathOnto_eq i []).trans (List.append_nil _)

end Hierarchy

end IsOf

/-! ### Questions about positions -/

/-- What the scan of an index and the direct scan have kept: the place of an entry, and the entry
with its depth. -/
inductive Keeps (map : SourceMap) : Option Nat → Option (Entry × Nat) → Prop
  | nothing : Keeps map none none
  | entry {i : Nat} {e : Entry} (here : map.entries[i]? = some e) :
    Keeps map (some i) (some (e, map.depthAt i))

namespace Keeps

variable {best : Option Nat} {pair : Option (Entry × Nat)} {line column : Nat}

/-- One more entry is seen. -/
theorem keepDeeper (keeps : Keeps map best pair) (right : index.IsOf map) {next : Entry × Nat}
    (here : map.entries[next.2]? = some next.1) (contains : next.1.range.Contains line column) :
    Keeps map (index.keepDeeper line column best next) (map.keepDeeper pair next) := by
  unfold Index.keepDeeper
  rw [if_pos contains]
  cases keeps with
  | nothing => exact .entry here
  | @entry i e held =>
    simp only [right.getD_depths, SourceMap.keepDeeper]
    by_cases deeper : map.depthAt i < map.depthAt next.2
    · rw [if_pos deeper, if_pos deeper]
      exact .entry here
    · rw [if_neg deeper, if_neg deeper]
      exact .entry held

/-- All entries of a list are seen. -/
theorem foldl (keeps : Keeps map best pair) (right : index.IsOf map) {items : List (Entry × Nat)}
    (listed : ∀ next ∈ items, map.entries[next.2]? = some next.1) :
    Keeps map (items.foldl (index.keepDeeper line column) best)
      ((items.filter fun next => decide (next.1.range.Contains line column)).foldl map.keepDeeper
        pair) := by
  induction items generalizing best pair with
  | nil => exact keeps
  | cons next items ih =>
    obtain ⟨here, others⟩ := List.forall_mem_cons.mp listed
    by_cases contains : next.1.range.Contains line column
    · rw [List.filter_cons, if_pos (decide_eq_true contains)]
      exact ih (keeps.keepDeeper right here contains) others
    · have same : index.keepDeeper line column best next = best := if_neg contains
      rw [List.filter_cons, if_neg (by simpa using contains), List.foldl_cons, same]
      exact ih keeps others

/-- A place and the entry at it are the same answer. -/
theorem bind_eq (keeps : Keeps map best pair) :
    best.bind (map.entries[·]?) = pair.map Prod.fst := by
  cases keeps with
  | nothing => rfl
  | entry here => exact here

end Keeps

theorem IsOf.at?_eq (right : index.IsOf map) (line column : Nat) :
    index.at? line column = map.at? line column := by
  rw [Index.at?, ← Array.foldl_toList, Array.toList_zipIdx, right.entries, funext right.getElem?]
  refine (Keeps.nothing.foldl right fun next inside => ?_).bind_eq
  exact List.mem_zipIdx_iff_getElem?.mp inside

/-! ### Counts -/

/-- A kind that is new comes last. -/
theorem kinds_concat (entries : List Entry) (e : Entry) :
    (SourceMap.mk (entries ++ [e])).kinds =
      if e.kind ∈ (SourceMap.mk entries).kinds then (SourceMap.mk entries).kinds
      else (SourceMap.mk entries).kinds ++ [e.kind] := by
  rw [kinds, List.foldl_append]
  rfl

/-- Counts of distinct kinds, after one more entry. -/
theorem tally_map (kind : NodeKind) {seen : List NodeKind} {count : NodeKind → Nat}
    (distinct : seen.Nodup) (new : kind ∉ seen → count kind = 0) :
    tally (seen.map fun k => (k, count k)) kind =
      (if kind ∈ seen then seen else seen ++ [kind]).map
        fun k => (k, count k + if kind == k then 1 else 0) := by
  induction seen with
  | nil => simp [tally, new]
  | cons k seen ih =>
    obtain ⟨apart, distinct⟩ := List.nodup_cons.mp distinct
    by_cases same : k = kind
    · -- The kind is the first one, and the others are not it.
      subst same
      have others : ∀ other ∈ seen,
          (other, count other) = (other, count other + if k == other then 1 else 0) := by
        intro other inside
        have differ : k ≠ other := by
          rintro rfl
          exact apart inside
        simp [differ]
      rw [List.map_cons, tally, if_pos rfl, if_pos List.mem_cons_self, List.map_cons,
        List.map_congr_left others, if_pos BEq.rfl]
    · have further : kind ∉ seen → count kind = 0 := fun absent =>
        new (List.not_mem_cons_of_ne_of_not_mem (Ne.symm same) absent)
      rw [List.map_cons, tally, if_neg same, ih distinct further]
      by_cases old : kind ∈ seen
      · simp [old, Ne.symm same]
      · simp [old, Ne.symm same]

/-- The one pass over the entries counts as the direct question does. -/
theorem foldl_tally (entries : List Entry) :
    entries.foldl (fun counts e => tally counts e.kind) [] =
      (SourceMap.mk entries).stats.nodesByKind := by
  -- From the end, for both count the last entry last.
  induction entries using List.reverseRecOn with
  | nil => rfl
  | append_singleton entries e ih =>
    have count : ∀ kind, (entries ++ [e]).countP (·.kind == kind) =
        entries.countP (·.kind == kind) + if e.kind == kind then 1 else 0 := by
      intro kind
      rw [List.countP_append, List.countP_singleton]
    rw [List.foldl_append, ih, SourceMap.stats, SourceMap.stats, kinds_concat]
    simp only [count, List.foldl_cons, List.foldl_nil]
    apply tally_map e.kind (SourceMap.mk entries).kinds_spec.1
    intro absent
    by_contra some
    exact absent (((SourceMap.mk entries).mem_kinds_iff e.kind).mpr some)

theorem IsOf.stats_eq (right : index.IsOf map) : index.stats = map.stats := by
  rw [Index.stats, ← Array.foldl_toList, ← Array.foldl_toList, right.entries, right.depths,
    right.size, foldl_tally]
  rfl

/-! ### All questions -/

/-- An index and a source map give the same answers. -/
structure Answers (index : Index) (map : SourceMap) : Prop where
  find? : ∀ id, index.find? id = map.find? id
  depth? : ∀ id, index.depth? id = map.depth? id
  path : ∀ id, index.path id = map.path id
  children : ∀ id, index.children id = map.children id
  parent? : ∀ id, index.parent? id = map.parent? id
  siblings : ∀ id, index.siblings id = map.siblings id
  at? : ∀ line column, index.at? line column = map.at? line column
  stats : index.stats = map.stats

theorem IsOf.answers (right : index.IsOf map) : index.Answers map where
  find? := right.find?_eq
  depth? := right.depth?_eq
  path := right.path_eq
  children := right.children_eq
  parent? := right.parent?_eq
  siblings := right.siblings_eq
  at? := right.at?_eq
  stats := right.stats_eq

end Index

/-- The index of a source map is right for it. -/
theorem isOf_index (map : SourceMap) : map.index.IsOf map :=
  Index.IsOf.empty.foldl_add map.entries

/-- Every question has the same answer from a source map and from its index. -/
theorem answers_index (map : SourceMap) : map.index.Answers map :=
  map.isOf_index.answers

end SourceMap

end Wireframe
