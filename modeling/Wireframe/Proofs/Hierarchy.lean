import Mathlib
import Wireframe.Proofs.DocumentIds
import Wireframe.Proofs.Nesting
import Wireframe.SourceMap.Query

/-!
# The hierarchy of a source map

The questions to a source map about what lies around an entry and inside it describe one tree. An id
stands for the first entry that bears it, and definitions can clash, so an entry need not be the one
that its id stands for. But the entries that share an id lie in the same entry, and every entry
comes behind the one around it; this is all that paths, depths, children and siblings depend on.

## Main definitions

* `SourceMap.Linked` — every entry has its parent before it, and namesakes have the same one.
* `SourceMap.IsPathTo` — the entries from the first one down to an entry.
* `SourceMap.Coherent` — the answers about the hierarchy agree with each other.

## Main results

* `SourceMap.parentInduction` — what goes from each entry to those inside it holds of all entries.
* `SourceMap.Linked.isPathTo` — following the parents leads up to the first entry.
* `SourceMap.Linked.coherent` — the answers agree if the entries are linked.
* `sourceMap_coherent` — they agree for the source map of every text.
-/

namespace Wireframe

namespace SourceMap

/-! ### Indices -/

section Indices

variable {map : SourceMap} {i j : Nat}

/-- What goes from each entry to those inside it holds of all entries. -/
@[elab_as_elim]
theorem parentInduction {motive : Nat → Prop} (map : SourceMap)
    (outermost : ∀ i, map.parentIndex? i = none → motive i)
    (inner : ∀ i j (earlier : j < i), map.parentIndex? i = some ⟨j, earlier⟩ → motive j →
      motive i) : ∀ i, motive i := by
  intro i
  induction i using Nat.strong_induction_on with
  | h i ih =>
    match around : map.parentIndex? i with
    | none => exact outermost i around
    | some ⟨j, earlier⟩ => exact inner i j earlier around (ih j earlier)

theorem pathTo_of_none (around : map.parentIndex? i = none) : map.pathTo i = [i] := by
  rw [pathTo, around]

theorem pathTo_of_some {earlier : j < i} (around : map.parentIndex? i = some ⟨j, earlier⟩) :
    map.pathTo i = map.pathTo j ++ [i] := by
  rw [pathTo, around]

theorem depthAt_of_none (around : map.parentIndex? i = none) : map.depthAt i = 0 := by
  rw [depthAt, around]

theorem depthAt_of_some {earlier : j < i} (around : map.parentIndex? i = some ⟨j, earlier⟩) :
    map.depthAt i = map.depthAt j + 1 := by
  rw [depthAt, around]

theorem length_pathTo (map : SourceMap) (i : Nat) :
    (map.pathTo i).length = map.depthAt i + 1 := by
  induction i using parentInduction map with
  | outermost i around => rw [pathTo_of_none around, depthAt_of_none around, List.length_singleton]
  | inner i j earlier around ih =>
    rw [pathTo_of_some around, depthAt_of_some around, List.length_append, ih,
      List.length_singleton]

/-- The way down to an entry passes only entries before it. -/
theorem le_of_mem_pathTo (passed : j ∈ map.pathTo i) : j ≤ i := by
  induction i using parentInduction map with
  | outermost i around =>
    rw [pathTo_of_none around] at passed
    exact Nat.le_of_eq (List.mem_singleton.mp passed)
  | inner i k earlier around ih =>
    rw [pathTo_of_some around] at passed
    rcases List.mem_append.mp passed with before | last
    · exact Nat.le_trans (ih before) (Nat.le_of_lt earlier)
    · exact Nat.le_of_eq (List.mem_singleton.mp last)

end Indices

/-! ### Entries by their ids -/

section Ids

variable {map : SourceMap} {i : Nat} {e : Entry} {id : NodeId}

/-- An id stands for the first entry that bears it. -/
theorem exists_indexOf? (here : map.entries[i]? = some e) : ∃ j f,
    map.indexOf? e.id = some j ∧ j ≤ i ∧ map.entries[j]? = some f ∧ f.id = e.id := by
  obtain ⟨inside, rfl⟩ := List.getElem?_eq_some_iff.mp here
  match found : map.indexOf? (map.entries[i]).id with
  | none =>
    have none := List.findIdx?_eq_none_iff.mp found _ (List.getElem_mem inside)
    simp at none
  | some j =>
    obtain ⟨within, same, first⟩ := List.findIdx?_eq_some_iff_getElem.mp found
    refine ⟨j, map.entries[j], rfl, ?_, List.getElem?_eq_getElem within, by simpa using same⟩
    by_contra later
    exact first i (by omega) (by simp)

theorem find?_eq (map : SourceMap) (id : NodeId) :
    map.find? id = (map.indexOf? id).bind (map.entries[·]?) :=
  List.find?_eq_bind_findIdx?_getElem?

theorem indexOf?_eq_none (absent : ∀ e ∈ map.entries, e.id ≠ id) : map.indexOf? id = none :=
  List.findIdx?_eq_none_iff.mpr fun e inside => by simpa using absent e inside

theorem find?_eq_none (absent : ∀ e ∈ map.entries, e.id ≠ id) : map.find? id = none := by
  rw [find?_eq, indexOf?_eq_none absent]
  rfl

theorem exists_find? (inside : e ∈ map.entries) :
    ∃ f ∈ map.entries, map.find? e.id = some f ∧ f.id = e.id := by
  obtain ⟨i, here⟩ := List.mem_iff_getElem?.mp inside
  obtain ⟨j, f, index, -, first, same⟩ := exists_indexOf? here
  refine ⟨f, List.mem_of_getElem? first, ?_, same⟩
  rw [find?_eq, index]
  exact first

end Ids

/-! ### Linked entries -/

/-- The entries of a source map make up a tree: each comes behind the one around it, and those that
share an id lie in the same one. -/
structure Linked (map : SourceMap) : Prop where
  root : ∃ e others, map.entries = e :: others ∧ e.kind = .project ∧
    ∀ f ∈ others, f.kind ≠ .project
  parents : ∀ {i : Nat} {e : Entry}, map.entries[i]? = some e →
    i = 0 ∧ e.parent = none ∨
      ∃ j p, j < i ∧ map.entries[j]? = some p ∧ e.parent = some p.id
  namesakes : ∀ e ∈ map.entries, ∀ f ∈ map.entries, e.id = f.id → e.parent = f.parent

/-- The entries from the first one down to an entry, each of them the parent of the next. -/
structure IsPathTo (map : SourceMap) (e : Entry) (path : List Entry) : Prop where
  first : path.head? = map.entries.head?
  last : path.getLast? = some e
  chain : path.IsChain fun p c => c.parent = some p.id

namespace Linked

variable {map : SourceMap} (linked : map.Linked)

include linked

section At

variable {i j : Nat} {e f : Entry} (here : map.entries[i]? = some e)

include here

/-- The first entry has none around it, and any other one is around by its parent's id. -/
theorem parentIndex? :
    i = 0 ∧ e.parent = none ∧ map.parentIndex? i = none ∨
      ∃ j p, ∃ earlier : j < i, map.parentIndex? i = some ⟨j, earlier⟩ ∧
        map.entries[j]? = some p ∧ e.parent = some p.id ∧ map.indexOf? p.id = some j := by
  rcases linked.parents here with ⟨first, none⟩ | ⟨k, q, before, there, parent⟩
  · refine .inl ⟨first, none, ?_⟩
    simp [SourceMap.parentIndex?, here, none]
  · obtain ⟨j, p, index, le, held, same⟩ := exists_indexOf? there
    have earlier : j < i := by omega
    refine .inr ⟨j, p, earlier, ?_, held, by rw [parent, same], by rw [same, index]⟩
    simp [SourceMap.parentIndex?, here, parent, index, earlier]

/-- Following the parents leads up to the first entry. -/
theorem isPathTo : map.IsPathTo e ((map.pathTo i).filterMap (map.entries[·]?)) := by
  induction i using parentInduction map generalizing e with
  | outermost i around =>
    rcases linked.parentIndex? here with ⟨rfl, -, -⟩ | ⟨j, p, earlier, known, -⟩
    · have only : (map.pathTo 0).filterMap (map.entries[·]?) = [e] := by
        simp [pathTo_of_none around, here]
      rw [only]
      exact ⟨by rw [List.head?_eq_getElem?, List.head?_eq_getElem?, here]; rfl, rfl,
        List.IsChain.singleton e⟩
    · rw [around] at known
      contradiction
  | inner i j earlier around ih =>
    rcases linked.parentIndex? here with ⟨-, -, known⟩ | ⟨k, p, before, known, held, parent, -⟩
    · rw [around] at known
      contradiction
    · rw [around] at known
      obtain rfl : j = k := congrArg Subtype.val (Option.some.inj known)
      obtain ⟨first, last, chain⟩ := ih held
      have longer : (map.pathTo i).filterMap (map.entries[·]?) =
          (map.pathTo j).filterMap (map.entries[·]?) ++ [e] := by
        rw [pathTo_of_some around, List.filterMap_append]
        simp [here]
      rw [longer]
      refine ⟨?_, by simp, List.isChain_append.mpr ⟨chain, List.IsChain.singleton e, ?_⟩⟩
      · obtain ⟨head, others, eq⟩ := List.exists_cons_of_ne_nil
          (List.ne_nil_of_mem (List.mem_of_getLast? last))
        rw [← first, eq]
        rfl
      · intro x atEnd y atStart
        obtain rfl := Option.some.inj (last.symm.trans atEnd)
        obtain rfl := Option.some.inj atStart
        exact parent

omit linked in
theorem length_entriesTo :
    ((map.pathTo i).filterMap (map.entries[·]?)).length = map.depthAt i + 1 := by
  rw [← length_pathTo, List.filterMap_length_eq_length]
  intro j passed
  have within := (List.getElem?_eq_some_iff.mp here).1
  have le := le_of_mem_pathTo passed
  rw [List.getElem?_eq_getElem (by omega)]
  rfl

/-- Entries in the same entry lie equally deep. -/
theorem depthAt_eq_of_parent (there : map.entries[j]? = some f) (same : e.parent = f.parent) :
    map.depthAt i = map.depthAt j := by
  rcases linked.parentIndex? here with ⟨-, none, around⟩ | ⟨k, p, earlier, around, -, parent, index⟩
  · rcases linked.parentIndex? there with ⟨-, -, other⟩ | ⟨k, p, earlier, -, -, parent, -⟩
    · rw [depthAt_of_none around, depthAt_of_none other]
    · rw [same, parent] at none
      contradiction
  · rcases linked.parentIndex? there with ⟨-, none, -⟩ | ⟨l, q, before, other, -, parent', index'⟩
    · rw [← same, parent] at none
      contradiction
    · have ids : p.id = q.id := by
        rw [same, parent'] at parent
        exact (Option.some.inj parent).symm
      rw [ids, index'] at index
      obtain rfl := Option.some.inj index
      rw [depthAt_of_some around, depthAt_of_some other]

/-- The path to the id of an entry. -/
theorem exists_path : ∃ f, map.find? e.id = some f ∧ map.IsPathTo f (map.path e.id) ∧
    (map.path e.id).length = map.depthAt i + 1 ∧ map.depth? e.id = some (map.depthAt i) := by
  obtain ⟨j, f, index, -, first, same⟩ := exists_indexOf? here
  have path : map.path e.id = (map.pathTo j).filterMap (map.entries[·]?) := by
    rw [SourceMap.path, index]
  have depth : map.depthAt j = map.depthAt i :=
    linked.depthAt_eq_of_parent first here
      (linked.namesakes f (List.mem_of_getElem? first) e (List.mem_of_getElem? here) same)
  refine ⟨f, ?_, ?_, ?_, ?_⟩
  · rw [find?_eq, index]
    exact first
  · rw [path]
    exact linked.isPathTo first
  · rw [path, length_entriesTo first, depth]
  · rw [depth?, index, Option.map_some, depth]

end At

/-! ### Families -/

section Families

variable {e f : Entry} (inside : e ∈ map.entries)

include inside

theorem parent_of_find? (found : map.find? e.id = some f) : f.parent = e.parent := by
  obtain ⟨g, held, same, ids⟩ := exists_find? inside
  obtain rfl := Option.some.inj (same.symm.trans found)
  exact linked.namesakes g held e inside ids

/-- The parent of an entry, asked for by its id. -/
theorem exists_parent {id : NodeId} (parent : e.parent = some id) :
    ∃ p ∈ map.entries, map.parent? e.id = some p ∧ p.id = id := by
  obtain ⟨f, -, found, -⟩ := exists_find? inside
  have same := linked.parent_of_find? inside found
  obtain ⟨i, here⟩ := List.mem_iff_getElem?.mp inside
  rcases linked.parents here with ⟨-, none⟩ | ⟨j, q, -, there, around⟩
  · rw [none] at parent
    contradiction
  · obtain rfl := Option.some.inj (around.symm.trans parent)
    obtain ⟨p, held, known, ids⟩ := exists_find? (List.mem_of_getElem? there)
    refine ⟨p, held, ?_, ids⟩
    rw [parent?, found, Option.bind_some, same, parent, Option.bind_some, known]

/-- The siblings of an entry are the other entries in the same one. -/
theorem mem_siblings_iff :
    f ∈ map.siblings e.id ↔
      f ∈ map.entries ∧ (∃ id, e.parent = some id ∧ f.parent = some id) ∧ f.id ≠ e.id := by
  obtain ⟨g, -, found, -⟩ := exists_find? inside
  have same := linked.parent_of_find? inside found
  rw [siblings, found, Option.bind_some, same]
  cases e.parent with
  | none => simp
  | some id => simp [children, and_comm (a := ¬ f.id = e.id)]

end Families

end Linked

/-! ### Counts -/

section Counts

variable (map : SourceMap)

/-- The search for kinds keeps those that it has seen, once each, and finds those of all entries. -/
theorem kinds_foldl_spec (entries : List Entry) (seen : List NodeKind) (distinct : seen.Nodup) :
    (entries.foldl (fun seen e => if e.kind ∈ seen then seen else seen ++ [e.kind]) seen).Nodup ∧
      ∀ kind, kind ∈ entries.foldl
          (fun seen e => if e.kind ∈ seen then seen else seen ++ [e.kind]) seen ↔
        kind ∈ seen ∨ kind ∈ entries.map Entry.kind := by
  induction entries generalizing seen with
  | nil => exact ⟨distinct, by simp⟩
  | cons e entries ih =>
    by_cases old : e.kind ∈ seen
    · obtain ⟨nodup, members⟩ := ih seen distinct
      simp only [List.foldl_cons, if_pos old]
      refine ⟨nodup, fun kind => (members kind).trans ?_⟩
      rw [List.map_cons, List.mem_cons]
      constructor
      · exact Or.imp_right .inr
      · rintro (before | rfl | later)
        · exact .inl before
        · exact .inl old
        · exact .inr later
    · have longer : (seen ++ [e.kind]).Nodup := by
        refine List.nodup_append.mpr ⟨distinct, List.nodup_singleton _, ?_⟩
        rintro a before b last rfl
        exact old (List.mem_singleton.mp last ▸ before)
      obtain ⟨nodup, members⟩ := ih (seen ++ [e.kind]) longer
      simp only [List.foldl_cons, if_neg old]
      refine ⟨nodup, fun kind => (members kind).trans ?_⟩
      rw [List.map_cons, List.mem_cons, List.mem_append, List.mem_singleton, or_assoc]

theorem kinds_spec :
    map.kinds.Nodup ∧ ∀ kind, kind ∈ map.kinds ↔ kind ∈ map.entries.map Entry.kind := by
  obtain ⟨nodup, members⟩ := kinds_foldl_spec map.entries [] List.nodup_nil
  exact ⟨nodup, fun kind => (members kind).trans (by simp)⟩

/-- The kinds that occur are those with entries to count. -/
theorem mem_kinds_iff (kind : NodeKind) :
    kind ∈ map.kinds ↔ map.entries.countP (·.kind == kind) ≠ 0 := by
  rw [map.kinds_spec.2, Ne, List.countP_eq_zero]
  simp

/-- Every kind that occurs is counted once, with all of its entries. -/
theorem mem_nodesByKind_iff (kind : NodeKind) (n : Nat) :
    (kind, n) ∈ map.stats.nodesByKind ↔ n = (map.ofKind kind none).length ∧ n ≠ 0 := by
  have count : map.entries.countP (·.kind == kind) = (map.ofKind kind none).length := by
    rw [ofKind, List.countP_eq_length_filter]
    simp
  simp only [stats, List.mem_map, Prod.mk.injEq]
  constructor
  · rintro ⟨k, held, rfl, rfl⟩
    exact ⟨count, (map.mem_kinds_iff k).mp held⟩
  · rintro ⟨rfl, some⟩
    rw [← count] at some ⊢
    exact ⟨kind, (map.mem_kinds_iff kind).mpr some, rfl, rfl⟩

theorem sum_nodesByKind : (map.stats.nodesByKind.map Prod.snd).sum = map.stats.totalNodes := by
  have perm : map.kinds.Perm (map.entries.map Entry.kind).dedup := by
    refine (List.perm_ext_iff_of_nodup map.kinds_spec.1 (List.nodup_dedup _)).mpr fun kind => ?_
    rw [map.kinds_spec.2, List.mem_dedup]
  have counts : map.stats.nodesByKind.map Prod.snd =
      map.kinds.map fun kind => (map.entries.map Entry.kind).count kind := by
    rw [stats, List.map_map]
    refine List.map_congr_left fun kind _ => ?_
    rw [List.count, List.countP_map]
    rfl
  rw [counts, (perm.map _).sum_eq, List.sum_map_count_dedup_eq_length, List.length_map]
  rfl

/-- The greatest depth is that of the entries that lie deepest. -/
theorem maxDepth_eq (some : map.entries ≠ []) :
    (∀ i < map.entries.length, map.depthAt i ≤ map.stats.maxDepth) ∧
      ∃ i < map.entries.length, map.depthAt i = map.stats.maxDepth := by
  have depths : (List.range map.entries.length).map map.depthAt ≠ [] := by simpa using some
  have deepest : map.stats.maxDepth =
      ((List.range map.entries.length).map map.depthAt).max depths := by
    rw [stats, List.foldl_max_eq_max depths, Nat.zero_max]
  rw [deepest]
  refine ⟨fun i within => ?_, ?_⟩
  · exact List.le_max_of_mem (List.mem_map_of_mem (List.mem_range.mpr within))
  · obtain ⟨i, within, same⟩ := List.mem_map.mp (List.max_mem depths)
    exact ⟨i, List.mem_range.mp within, same⟩

end Counts

/-! ### One hierarchy -/

/-- The answers of a source map about its hierarchy agree with each other. -/
structure Coherent (map : SourceMap) : Prop where
  /-- The entry of the project comes first. -/
  project : ∃ e others, map.entries = e :: others ∧ e.kind = .project ∧ e.parent = none ∧
    ∀ f ∈ others, f.kind ≠ .project
  /-- The path to an id leads from the entry of the project to the one that the id stands for. -/
  path : ∀ e ∈ map.entries, ∃ f, map.find? e.id = some f ∧ map.IsPathTo f (map.path e.id)
  depth : ∀ e ∈ map.entries, ∃ depth, map.depth? e.id = some depth ∧
    (map.path e.id).length = depth + 1
  children : ∀ id, map.children id = map.entries.filter (·.parent = some id)
  /-- Every entry but that of the project is a child of the one around it. -/
  parent : ∀ e ∈ map.entries, e.kind ≠ .project → ∃ p ∈ map.entries,
    e.parent = some p.id ∧ map.parent? e.id = some p ∧ e ∈ map.children p.id
  siblings : ∀ e ∈ map.entries, map.siblings e.id =
    match map.parent? e.id with
    | none => []
    | some p => (map.children p.id).filter (·.id ≠ e.id)
  siblings_symm : ∀ e ∈ map.entries, ∀ f ∈ map.entries,
    f ∈ map.siblings e.id → e ∈ map.siblings f.id
  /-- The greatest depth is that of the longest paths. -/
  deepest : (∀ e ∈ map.entries, (map.path e.id).length ≤ map.stats.maxDepth + 1) ∧
    ∃ e ∈ map.entries, (map.path e.id).length = map.stats.maxDepth + 1
  /-- Every kind that occurs is counted once, with all of its entries. -/
  counts : (map.stats.nodesByKind.map Prod.fst).Nodup ∧ ∀ kind n,
    (kind, n) ∈ map.stats.nodesByKind ↔ n = (map.ofKind kind none).length ∧ n ≠ 0
  total : map.stats.totalNodes = map.entries.length ∧
    (map.stats.nodesByKind.map Prod.snd).sum = map.stats.totalNodes
  unknown : ∀ id, (∀ e ∈ map.entries, e.id ≠ id) →
    map.find? id = none ∧ map.depth? id = none ∧ map.parent? id = none ∧
      map.path id = [] ∧ map.children id = [] ∧ map.siblings id = []

namespace Linked

variable {map : SourceMap} (linked : map.Linked)

include linked

theorem parent_mem {e : Entry} (inside : e ∈ map.entries) {id : NodeId}
    (parent : e.parent = some id) : ∃ p ∈ map.entries, p.id = id := by
  obtain ⟨p, held, -, same⟩ := linked.exists_parent inside parent
  exact ⟨p, held, same⟩

/-- No question finds anything by an id that no entry bears. -/
theorem unknown {id : NodeId} (absent : ∀ e ∈ map.entries, e.id ≠ id) :
    map.find? id = none ∧ map.depth? id = none ∧ map.parent? id = none ∧
      map.path id = [] ∧ map.children id = [] ∧ map.siblings id = [] := by
  have index := indexOf?_eq_none absent
  have found := find?_eq_none absent
  refine ⟨found, by rw [depth?, index]; rfl, by rw [parent?, found]; rfl, by rw [path, index], ?_,
    by rw [siblings, found]; rfl⟩
  refine List.filter_eq_nil_iff.mpr fun e inside child => ?_
  obtain ⟨p, held, same⟩ := linked.parent_mem inside (eq_of_beq child)
  exact absent p held same

/-- The siblings of an entry are the other children of its parent. -/
theorem siblings_eq {e : Entry} (inside : e ∈ map.entries) :
    map.siblings e.id = match map.parent? e.id with
      | none => []
      | some p => (map.children p.id).filter (·.id ≠ e.id) := by
  obtain ⟨f, -, found, -⟩ := exists_find? inside
  have same := linked.parent_of_find? inside found
  cases parent : e.parent with
  | none => simp [SourceMap.siblings, SourceMap.parent?, found, same, parent]
  | some id =>
    obtain ⟨p, -, known, rfl⟩ := linked.exists_parent inside parent
    rw [known, SourceMap.siblings, found, Option.bind_some, same, parent]
    exact List.filter_congr fun _ _ => by rw [Bool.eq_iff_iff]; simp

/-- The greatest depth is that of the longest paths. -/
theorem length_path_le_maxDepth (some : map.entries ≠ []) :
    (∀ e ∈ map.entries, (map.path e.id).length ≤ map.stats.maxDepth + 1) ∧
      ∃ e ∈ map.entries, (map.path e.id).length = map.stats.maxDepth + 1 := by
  obtain ⟨bound, i, within, attained⟩ := map.maxDepth_eq some
  constructor
  · intro e inside
    obtain ⟨j, here⟩ := List.mem_iff_getElem?.mp inside
    obtain ⟨-, -, -, length, -⟩ := linked.exists_path here
    rw [length]
    exact Nat.succ_le_succ (bound j (List.getElem?_eq_some_iff.mp here).1)
  · obtain ⟨-, -, -, length, -⟩ := linked.exists_path (List.getElem?_eq_getElem within)
    exact ⟨_, List.getElem_mem within, by rw [length, attained]⟩

/-- The answers about the hierarchy agree if the entries are linked. -/
theorem coherent : map.Coherent := by
  obtain ⟨root, others, entries, kind, only⟩ := linked.root
  have someEntry : map.entries ≠ [] := by simp [entries]
  have atRoot : map.entries[0]? = some root := by simp [entries]
  have rootParent : root.parent = none := by
    rcases linked.parents atRoot with ⟨-, none⟩ | ⟨j, -, before, -⟩
    · exact none
    · exact absurd before (Nat.not_lt_zero j)
  refine ⟨⟨root, others, entries, kind, rootParent, only⟩, ?path, ?depth, fun id => ?children,
    ?parent, fun e => linked.siblings_eq, ?symm, linked.length_path_le_maxDepth someEntry,
    ⟨?keys, map.mem_nodesByKind_iff⟩, ⟨rfl, map.sum_nodesByKind⟩, fun id => linked.unknown⟩
  case path =>
    intro e inside
    obtain ⟨i, here⟩ := List.mem_iff_getElem?.mp inside
    obtain ⟨f, found, path, -⟩ := linked.exists_path here
    exact ⟨f, found, path⟩
  case depth =>
    intro e inside
    obtain ⟨i, here⟩ := List.mem_iff_getElem?.mp inside
    obtain ⟨-, -, -, length, depth⟩ := linked.exists_path here
    exact ⟨map.depthAt i, depth, length⟩
  case children => exact List.filter_congr fun _ _ => by rw [Bool.eq_iff_iff]; simp
  case parent =>
    intro e inside other
    obtain ⟨i, here⟩ := List.mem_iff_getElem?.mp inside
    rcases linked.parents here with ⟨rfl, -⟩ | ⟨j, q, -, -, parent⟩
    · rw [atRoot] at here
      exact absurd (Option.some.inj here ▸ kind) other
    · obtain ⟨p, held, known, same⟩ := linked.exists_parent inside parent
      refine ⟨p, held, by rw [parent, same], known, ?_⟩
      simp [SourceMap.children, inside, parent, same]
  case symm =>
    intro e inE f inF sibling
    obtain ⟨-, ⟨id, parentE, parentF⟩, differ⟩ := (linked.mem_siblings_iff inE).mp sibling
    exact (linked.mem_siblings_iff inF).mpr ⟨inE, ⟨id, parentF, parentE⟩, differ.symm⟩
  case keys =>
    have keys : map.stats.nodesByKind.map Prod.fst = map.kinds := by
      simp [stats, Function.comp_def]
    rw [keys]
    exact map.kinds_spec.1

end Linked

end SourceMap

/-! ### The source map of a text -/

/-- In a source map of which the ranges nest, every entry but the first lies between the braces of
an earlier one that bears the id of its parent. -/
theorem SourceMap.Nested.exists_parent {map : SourceMap} {lexemes : List Lexeme}
    (nested : map.Nested lexemes) {i : Nat} {e : Entry} (here : map.entries[i]? = some e) :
    i = 0 ∧ e.parent = none ∨ ∃ j p, j < i ∧ map.entries[j]? = some p ∧ e.parent = some p.id ∧
      Entry.Encloses lexemes p e := by
  obtain ⟨within, rfl⟩ := List.getElem?_eq_some_iff.mp here
  have split : map.entries =
      map.entries.take i ++ map.entries[i] :: map.entries.drop (i + 1) := by
    rw [← List.drop_eq_getElem_cons within, List.take_append_drop]
  rcases nested.inside split with ⟨first, none⟩ | ⟨p, found, encloses⟩
  · refine .inl ⟨?_, none⟩
    rcases List.take_eq_nil_iff.mp first with zero | empty
    · exact zero
    · simp [empty] at within
  · have before := List.mem_reverse.mp (List.mem_of_find?_eq_some found)
    obtain ⟨j, inside, held⟩ := List.mem_take_iff_getElem.mp before
    refine .inr ⟨j, p, by omega, ?_, ?_, encloses⟩
    · rw [← held, List.getElem?_eq_getElem]
    · exact (eq_of_beq (List.find?_eq_some_iff_append.mp found).1).symm

namespace ProjectBlock

variable {project : ProjectBlock}

/-- A definition lies in the project. -/
theorem parent_of_definedName? {d : Draft} (inside : d ∈ project.drafts)
    (defines : d.subject.definedName? ≠ none) : d.parent = some NodeKind.project.name := by
  rcases List.mem_cons.mp inside with rfl | below
  · exact absurd rfl defines
  rcases mem_itemDrafts below with ⟨first, -, rfl⟩ | ⟨item, -, own⟩
  · rfl
  obtain ⟨t, body, -, -, ⟨-, outermost⟩ | nested⟩ := NumberedItem.mem_drafts own
  · exact outermost
  · rcases kind_of_mem_blockDrafts nested with kind | kind | kind
    all_goals
      cases shape : d.subject <;> rw [shape] at kind defines <;> contradiction

/-- The entries of a project that was read are linked. -/
theorem linked_of_read {text : List Char}
    (read : ProjectBlock.ofLexemes (scan text).lexemes = .ok project) :
    (SourceMap.mk (project.entries text)).Linked where
  root := by
    have named : NodeKind.project.isNamed = true := rfl
    have once := project.countP_drafts_le_one named
    rw [drafts, List.countP_cons_of_pos (by exact decide_eq_true rfl)] at once
    have none : (project.itemDrafts NodeKind.project.name [] project.numbered).countP
        (·.subject.kind = .project) = 0 := by omega
    refine ⟨_, _, rfl, rfl, fun e inside kind => ?_⟩
    obtain ⟨d, drafted, rfl⟩ := List.mem_map.mp inside
    exact List.countP_eq_zero.mp none d drafted (decide_eq_true kind)
  parents := by
    intro i e here
    rcases (nested_of_read read).exists_parent here with first | ⟨j, p, before, there, parent, -⟩
    · exact .inl first
    · exact .inr ⟨j, p, before, there, parent⟩
  namesakes := by
    intro e inE f inF same
    -- Two entries that share an id are those of definitions, which all lie in the project.
    have apart := project.pairwise_entry_ids text
    have symm : Std.Symm fun e f : Entry => e.id = f.id → e.parent = f.parent :=
      ⟨fun _ _ holds same => (holds same.symm).symm⟩
    refine List.Pairwise.forall_of_forall (R := fun e f : Entry => e.id = f.id →
      e.parent = f.parent) (fun _ _ _ => rfl) (apart.imp_of_mem ?_) inE inF same
    intro e f inE inF definitions same
    obtain ⟨definesE, definesF⟩ := definitions same
    obtain ⟨d, drafted, rfl⟩ := List.mem_map.mp inE
    obtain ⟨d', drafted', rfl⟩ := List.mem_map.mp inF
    exact (parent_of_definedName? drafted definesE).trans
      (parent_of_definedName? drafted' definesF).symm

end ProjectBlock

/-- The answers about the hierarchy agree for the source map of every text. -/
theorem sourceMap_coherent {text : String} {project : Project} {map : SourceMap}
    (built : (tolerant text).built = some (project, map)) : map.Coherent := by
  obtain ⟨block, read, -, rfl⟩ := exists_block_of_built built
  exact (ProjectBlock.linked_of_read read).coherent

/-- A project in which two definitions share an id, each of them with a layout of its own. -/
def clashText : String :=
  "project \"P\" \x7b define Layout \"A\" \x7b layout row \x7b \x7d \x7d\n" ++
  "define Layout \"A\" \x7b layout row \x7b \x7d \x7d\n" ++
  "define Layout \"A-1\" \x7b layout row \x7b cell \x7b \x7d \x7d \x7d \x7d\n"

theorem sourceMap_coherent_clashText : ∃ project map,
    (tolerant clashText).built = some (project, map) ∧ ¬ (map.entries.map Entry.id).Nodup ∧
      map.Coherent := by
  have ids : (tolerant clashText).built.map (·.2.entries.map Entry.id) =
      some ["project", "define-A", "layout-row-0", "define-A-1", "layout-row-1", "define-A-1",
        "layout-row-2", "cell-0"] := by decide +kernel
  obtain ⟨⟨project, map⟩, same, listed⟩ := Option.map_eq_some_iff.mp ids
  exact ⟨project, map, same, by rw [listed]; decide, sourceMap_coherent same⟩

end Wireframe
