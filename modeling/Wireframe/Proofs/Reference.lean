import Wireframe.Proofs.ClosedWalk
import Wireframe.Reference

/-!
# The search for circular references

The search goes depth first. A node is untouched, on the path, or resolved, and it is resolved only
after all its neighbours have been tried. Each try ends in one of two ways: the neighbour is
resolved by then, or it is on the path and the step to it closes a chain. So the nodes, from the one
resolved last to the one resolved first, are settled once the closing steps are taken away.

## Main definitions

* `ReferenceGraph.Step` — one node is a neighbour of another.
* `ReferenceGraph.Kept` — a step that closes no chain.
* `ReferenceGraph.Invariant` — what holds of a search that stands at the end of a path.

## Main results

* `ReferenceGraph.explores` — searching on from a node keeps the invariant and resolves it.
* `ReferenceGraph.search_invariant` — a whole search keeps it and resolves every node.
-/

namespace Wireframe

namespace ReferenceGraph

/-- One node is a neighbour of another. -/
def Step (g : ReferenceGraph) (a b : Reference) : Prop :=
  b ∈ g.neighbours a

/-- Neighbours are nodes, and no neighbour is listed twice. -/
structure Proper (g : ReferenceGraph) : Prop where
  source : ∀ a b, g.Step a b → a ∈ g.nodes
  target : ∀ a b, g.Step a b → b ∈ g.nodes
  distinct : ∀ a, (g.neighbours a).Nodup

/-- The steps that close the chains of a search. -/
def Search.closing (s : Search) : List (Option (Reference × Reference)) :=
  s.chains.map closingStep?

/-- A step that closes none of the chains of a search. -/
def Kept (g : ReferenceGraph) (s : Search) (a b : Reference) : Prop :=
  g.Step a b ∧ some (a, b) ∉ s.closing

/-- What holds of a search that stands at the end of a path, listed from its end to its start. -/
structure Invariant (g : ReferenceGraph) (path : List Reference) (s : Search) : Prop where
  walks : ∀ chain ∈ s.chains, ClosedWalk g.Step chain
  distinct : s.closing.Nodup
  sources : ∀ a b, some (a, b) ∈ s.closing → a ∈ s.resolved ∨ a ∈ path
  settled : Settled (g.Kept s) s.resolved
  unresolved : ∀ a ∈ path, a ∉ s.resolved

/-- A path that a search may stand at the end of: without repetition, from node to neighbour. -/
structure OnPath (g : ReferenceGraph) (path : List Reference) : Prop where
  inside : path ⊆ g.nodes
  simple : path.Nodup
  chain : path.IsChain fun a b => g.Step b a

/-- How a search goes on below a path: it forgets nothing, and closes no chain from the path. -/
structure Extends (path : List Reference) (s t : Search) : Prop where
  resolved : s.resolved ⊆ t.resolved
  closing : s.closing ⊆ t.closing
  fresh : ∀ a b, some (a, b) ∈ t.closing → some (a, b) ∈ s.closing ∨ a ∉ path

theorem Extends.refl (path : List Reference) (s : Search) : Extends path s s :=
  ⟨fun _ => id, fun _ => id, fun _ _ => .inl⟩

theorem Extends.trans {path : List Reference} {s t u : Search} (first : Extends path s t)
    (second : Extends path t u) : Extends path s u where
  resolved := fun _ found => second.resolved (first.resolved found)
  closing := fun _ found => second.closing (first.closing found)
  fresh := fun a b found => by
    rcases second.fresh a b found with earlier | outside
    · exact first.fresh a b earlier
    · exact .inr outside

/-- A search that keeps clear of a path keeps clear of every part of it. -/
theorem Extends.of_cons {node : Reference} {path : List Reference} {s t : Search}
    (h : Extends (node :: path) s t) : Extends path s t where
  resolved := h.resolved
  closing := h.closing
  fresh := fun a b found =>
    (h.fresh a b found).imp_right fun outside inside => outside (List.mem_cons_of_mem _ inside)

/-- One try of a neighbour of the end of a path. -/
def visit (g : ReferenceGraph) (steps : Nat) (path : List Reference) (s : Search)
    (next : Reference) : Search :=
  if next ∈ path then { s with chains := s.chains ++ [closedChain path next] }
  else if next ∈ s.resolved then s
  else g.explore steps next path s

theorem explore_succ (g : ReferenceGraph) (steps : Nat) (node : Reference)
    (before : List Reference) (s : Search) :
    g.explore (steps + 1) node before s =
      let t := (g.neighbours node).foldl (g.visit steps (node :: before)) s
      { t with resolved := node :: t.resolved } :=
  rfl

/-- What holds while the neighbours of the end of a path are tried one after the other: those tried
so far are resolved or closed a chain, and no other step from there closed one. -/
structure Trying (g : ReferenceGraph) (node : Reference) (before : List Reference)
    (start s : Search) (tried : List Reference) : Prop where
  invariant : g.Invariant (node :: before) s
  later : Extends before start s
  own : ∀ b, some (node, b) ∈ s.closing → b ∈ tried
  done : ∀ b ∈ tried, b ∈ s.resolved ∨ some (node, b) ∈ s.closing

/-- Searching on from a node, within some number of steps, keeps the invariant and resolves it. -/
def Explores (g : ReferenceGraph) (steps : Nat) : Prop :=
  ∀ node before s, g.OnPath (node :: before) → node ∉ s.resolved →
    g.nodes.length ≤ steps + before.length → g.Invariant before s →
    g.Invariant before (g.explore steps node before s) ∧
      node ∈ (g.explore steps node before s).resolved ∧
      Extends before s (g.explore steps node before s)

section Visit

variable {g : ReferenceGraph} {steps : Nat} {node next : Reference}
  {before tried : List Reference} {start s : Search}

/-- A neighbour on the path closes a chain by a step that closed none before. -/
theorem Trying.close (h : g.Trying node before start s tried) (path : g.OnPath (node :: before))
    (step : g.Step node next) (untried : next ∉ tried) (back : next ∈ node :: before) :
    g.Trying node before start
      { s with chains := s.chains ++ [closedChain (node :: before) next] } (tried ++ [next]) := by
  obtain ⟨walk, last⟩ := closedWalk_of_path path.chain path.simple back step
  set t : Search := { s with chains := s.chains ++ [closedChain (node :: before) next] } with ht
  have closing : t.closing = s.closing ++ [some (node, next)] := by
    simp only [ht, Search.closing, List.map_append, List.map_singleton, closedChain, last]
  have earlier : s.closing ⊆ t.closing := by
    rw [closing]
    exact List.subset_append_left _ _
  have oldOrNew : ∀ a b, some (a, b) ∈ t.closing →
      some (a, b) ∈ s.closing ∨ a = node ∧ b = next := by
    intro a b found
    rw [closing] at found
    rcases List.mem_append.mp found with old | new
    · exact .inl old
    · cases List.mem_singleton.mp new
      exact .inr ⟨rfl, rfl⟩
  have outside : node ∉ before := (List.nodup_cons.mp path.simple).1
  refine ⟨⟨?_, ?_, ?_, ?_, h.invariant.unresolved⟩,
    h.later.trans ⟨fun _ => id, earlier, ?_⟩, ?_, ?_⟩
  · intro chain found
    rcases List.mem_append.mp found with old | new
    · exact h.invariant.walks chain old
    · rw [List.mem_singleton.mp new]
      exact walk
  · -- Had the same step closed a chain before, the neighbour would have been tried already.
    rw [closing]
    refine List.nodup_append.mpr ⟨h.invariant.distinct, List.nodup_singleton _, ?_⟩
    rintro _ old _ new rfl
    rw [List.mem_singleton.mp new] at old
    exact untried (h.own next old)
  · intro a b found
    rcases oldOrNew a b found with old | ⟨rfl, -⟩
    · exact h.invariant.sources a b old
    · exact .inr List.mem_cons_self
  · exact h.invariant.settled.mono fun a b kept => ⟨kept.1, fun old => kept.2 (earlier old)⟩
  · intro a b found
    rcases oldOrNew a b found with old | ⟨rfl, -⟩
    · exact .inl old
    · exact .inr outside
  · intro b found
    rcases oldOrNew node b found with old | ⟨-, rfl⟩
    · exact List.mem_append_left _ (h.own b old)
    · exact List.mem_append_right _ (List.mem_singleton_self _)
  · intro b found
    rcases List.mem_append.mp found with old | new
    · exact (h.done b old).imp_right fun closed => earlier closed
    · rw [List.mem_singleton.mp new, closing]
      exact .inr (List.mem_append_right _ (List.mem_singleton_self _))

/-- A resolved neighbour adds nothing. -/
theorem Trying.skip (h : g.Trying node before start s tried) (resolved : next ∈ s.resolved) :
    g.Trying node before start s (tried ++ [next]) where
  invariant := h.invariant
  later := h.later
  own := fun b found => List.mem_append_left _ (h.own b found)
  done := fun b found => by
    rcases List.mem_append.mp found with old | new
    · exact h.done b old
    · rw [List.mem_singleton.mp new]
      exact .inl resolved

/-- Any other neighbour is resolved by searching on from it. -/
theorem Trying.descend (h : g.Trying node before start s tried) (proper : g.Proper)
    (path : g.OnPath (node :: before)) (explores : g.Explores steps)
    (room : g.nodes.length ≤ steps + (before.length + 1)) (step : g.Step node next)
    (fresh : next ∉ node :: before) (unresolved : next ∉ s.resolved) :
    g.Trying node before start (g.explore steps next (node :: before) s) (tried ++ [next]) := by
  have longer : g.OnPath (next :: node :: before) :=
    { inside := List.cons_subset.mpr ⟨proper.target _ _ step, path.inside⟩
      simple := List.nodup_cons.mpr ⟨fresh, path.simple⟩
      chain := List.isChain_cons_cons.mpr ⟨step, path.chain⟩ }
  obtain ⟨invariant, reached, later⟩ :=
    explores next (node :: before) s longer unresolved room h.invariant
  refine ⟨invariant, h.later.trans later.of_cons, fun b found => ?_, fun b found => ?_⟩
  · -- Below the neighbour no chain is closed by a step from the path, so none from the node itself.
    rcases later.fresh node b found with old | outside
    · exact List.mem_append_left _ (h.own b old)
    · exact absurd List.mem_cons_self outside
  · rcases List.mem_append.mp found with old | new
    · exact (h.done b old).imp (fun a => later.resolved a) fun a => later.closing a
    · rw [List.mem_singleton.mp new]
      exact .inl reached

theorem Trying.visit (h : g.Trying node before start s tried) (proper : g.Proper)
    (path : g.OnPath (node :: before)) (explores : g.Explores steps)
    (room : g.nodes.length ≤ steps + (before.length + 1)) (step : g.Step node next)
    (untried : next ∉ tried) :
    g.Trying node before start (g.visit steps (node :: before) s next) (tried ++ [next]) := by
  unfold ReferenceGraph.visit
  split
  case isTrue back => exact h.close path step untried back
  case isFalse fresh =>
    split
    case isTrue resolved => exact h.skip resolved
    case isFalse unresolved => exact h.descend proper path explores room step fresh unresolved

/-- All neighbours are tried, in order. -/
theorem Trying.foldl (proper : g.Proper) (path : g.OnPath (node :: before))
    (explores : g.Explores steps) (room : g.nodes.length ≤ steps + (before.length + 1)) :
    ∀ (others : List Reference) {tried : List Reference} {s : Search},
      (∀ b ∈ others, g.Step node b) → (tried ++ others).Nodup →
      g.Trying node before start s tried →
      g.Trying node before start (others.foldl (g.visit steps (node :: before)) s)
        (tried ++ others)
  | [], tried, s, _, _, h => by simpa using h
  | next :: others, tried, s, steps', distinct, h => by
    have untried : next ∉ tried := fun found =>
      (List.nodup_append.mp distinct).2.2 next found next List.mem_cons_self rfl
    have one := h.visit proper path explores room (steps' next List.mem_cons_self) untried
    rw [List.append_cons] at distinct ⊢
    exact Trying.foldl proper path explores room others
      (fun b found => steps' b (List.mem_cons_of_mem _ found)) distinct one

/-- A node is resolved once all its neighbours have been tried. -/
theorem Trying.resolve (h : g.Trying node before start s (g.neighbours node))
    (path : g.OnPath (node :: before)) :
    g.Invariant before { s with resolved := node :: s.resolved } ∧
      Extends before start { s with resolved := node :: s.resolved } := by
  have outside : node ∉ before := (List.nodup_cons.mp path.simple).1
  refine ⟨⟨h.invariant.walks, h.invariant.distinct, ?_, ⟨?_, h.invariant.settled⟩, ?_⟩,
    h.later.trans ⟨List.subset_cons_self _ _, fun _ => id, fun _ _ => .inl⟩⟩
  · intro a b found
    rcases h.invariant.sources a b found with resolved | onPath
    · exact .inl (List.mem_cons_of_mem _ resolved)
    · rcases List.mem_cons.mp onPath with rfl | onPath
      · exact .inl List.mem_cons_self
      · exact .inr onPath
  · -- A step that closes no chain leads to a neighbour that was resolved before the node.
    rintro b ⟨step, kept⟩
    exact (h.done b step).resolve_right kept
  · intro a onPath resolved
    rcases List.mem_cons.mp resolved with rfl | resolved
    · exact outside onPath
    · exact h.invariant.unresolved a (List.mem_cons_of_mem _ onPath) resolved

end Visit

/-- A path within the nodes is no longer than all of them. -/
theorem OnPath.length_le {g : ReferenceGraph} {path : List Reference} (h : g.OnPath path) :
    path.length ≤ g.nodes.length :=
  List.Nodup.length_le_of_subset h.simple h.inside

/-- The search resolves a node and keeps the invariant. The steps never run out, because a path
never repeats a node. -/
theorem explores {g : ReferenceGraph} (proper : g.Proper) (steps : Nat) : g.Explores steps := by
  induction steps with
  | zero =>
    -- With no steps left the path would be longer than there are nodes.
    intro node before s path _ room _
    have length := path.length_le
    simp only [List.length_cons] at length
    omega
  | succ steps ih =>
    intro node before s path unresolved room invariant
    -- Before the first try no chain is closed from the node: it was neither resolved nor on the
    -- path.
    have start : g.Trying node before s s [] :=
      { invariant :=
          { invariant with
            sources := fun a b found =>
              (invariant.sources a b found).imp_right (List.mem_cons_of_mem _)
            unresolved := fun a onPath resolved => by
              rcases List.mem_cons.mp onPath with rfl | onPath
              · exact unresolved resolved
              · exact invariant.unresolved a onPath resolved }
        later := .refl before s
        own := fun b found => by
          rcases invariant.sources node b found with resolved | onPath
          · exact absurd resolved unresolved
          · exact absurd onPath (List.nodup_cons.mp path.simple).1
        done := fun b found => by simp at found }
    have all := Trying.foldl proper path ih (by omega) (g.neighbours node) (fun _ => id)
      (proper.distinct node) start
    obtain ⟨kept, later⟩ := all.resolve path
    rw [explore_succ]
    exact ⟨kept, List.mem_cons_self, later⟩

section Search

variable {g : ReferenceGraph}

/-- Searching on from a node that a search has not resolved yet. -/
def visitRoot (g : ReferenceGraph) (s : Search) (node : Reference) : Search :=
  if node ∈ s.resolved then s else g.explore g.nodes.length node [] s

theorem visitRoot_invariant (proper : g.Proper) {s : Search} {node : Reference}
    (inside : node ∈ g.nodes) (h : g.Invariant [] s) :
    g.Invariant [] (g.visitRoot s node) ∧ node ∈ (g.visitRoot s node).resolved ∧
      s.resolved ⊆ (g.visitRoot s node).resolved := by
  unfold visitRoot
  split
  case isTrue resolved => exact ⟨h, resolved, fun _ => id⟩
  case isFalse unresolved =>
    have root : g.OnPath [node] :=
      ⟨by simpa using inside, List.nodup_singleton _, List.isChain_singleton _⟩
    obtain ⟨kept, reached, later⟩ := explores proper g.nodes.length node [] s root unresolved
      (Nat.le_refl _) h
    exact ⟨kept, reached, later.resolved⟩

theorem foldl_visitRoot_invariant (proper : g.Proper) (nodes : List Reference) {s : Search}
    (inside : nodes ⊆ g.nodes) (h : g.Invariant [] s) :
    g.Invariant [] (nodes.foldl g.visitRoot s) ∧ nodes ⊆ (nodes.foldl g.visitRoot s).resolved ∧
      s.resolved ⊆ (nodes.foldl g.visitRoot s).resolved := by
  induction nodes generalizing s with
  | nil => exact ⟨h, List.nil_subset _, fun _ => id⟩
  | cons node others ih =>
    obtain ⟨first, rest⟩ := List.cons_subset.mp inside
    obtain ⟨kept, reached, grown⟩ := visitRoot_invariant proper first h
    obtain ⟨final, all, later⟩ := ih rest kept
    exact ⟨final, List.cons_subset.mpr ⟨later reached, all⟩, fun _ found => later (grown found)⟩

/-- A whole search keeps the invariant and resolves every node. -/
theorem search_invariant (proper : g.Proper) :
    g.Invariant [] g.search ∧ g.nodes ⊆ g.search.resolved := by
  have start : g.Invariant [] {} :=
    { walks := by simp
      distinct := List.nodup_nil
      sources := by simp [Search.closing]
      settled := trivial
      unresolved := by simp }
  obtain ⟨kept, all, -⟩ := foldl_visitRoot_invariant proper g.nodes (fun _ => id) start
  exact ⟨kept, all⟩

theorem closing_search (g : ReferenceGraph) : g.search.closing = g.chains.map closingStep? :=
  rfl

/-- Without the steps that close the chains there is no cycle. -/
theorem acyclic_kept (proper : g.Proper) : Acyclic (g.Kept g.search) := by
  obtain ⟨kept, all⟩ := search_invariant proper
  intro a cycle
  -- The first step of a cycle starts at a node, and every node is settled in the end.
  obtain ⟨b, step, -⟩ := Relation.TransGen.head'_iff.mp cycle
  exact kept.settled.acyclic_at a (all (proper.source a b step.1)) cycle

/-- There are chains exactly if there is a cycle. -/
theorem chains_eq_nil_iff (proper : g.Proper) : g.chains = [] ↔ Acyclic g.Step := by
  constructor
  · intro none
    have closing : g.search.closing = [] := by
      rw [Search.closing, show g.search.chains = [] from none, List.map_nil]
    have all : ∀ a b, g.Step a b → g.Kept g.search a b := by
      intro a b step
      refine ⟨step, ?_⟩
      rw [closing]
      exact List.not_mem_nil
    exact fun a cycle => acyclic_kept proper a (Relation.TransGen.mono all _ _ cycle)
  · -- Any chain is a closed walk, and so a cycle.
    intro acyclic
    by_contra some
    obtain ⟨chain, rest, split⟩ := List.exists_cons_of_ne_nil some
    have walk := (search_invariant proper).1.walks chain
      (show chain ∈ g.chains by rw [split]; exact List.mem_cons_self)
    obtain ⟨a, cycle⟩ := walk.exists_cycle
    exact acyclic a cycle

end Search

end ReferenceGraph

/-! ### The references of a project -/

theorem nodup_eraseDups (refs : List Reference) : refs.eraseDups.Nodup := by
  -- By length, because the rest is filtered before it is gone through.
  induction n : refs.length using Nat.strongRecOn generalizing refs with
  | _ n ih =>
    cases refs with
    | nil => exact List.nodup_nil
    | cons r others =>
      rw [List.eraseDups_cons, List.nodup_cons, List.mem_eraseDups]
      refine ⟨by simp, ih _ ?_ _ rfl⟩
      rw [← n, List.length_cons]
      exact Nat.lt_succ_of_le (List.length_filter_le _ _)

/-- An element holds a component or layout of a given name, at any depth and itself included. -/
def Mentions (element : Element) : Reference → Prop
  | .component name => ∃ c, .component c ∈ element.walk ∧ c.kind = name
  | .layout name => ∃ l children, .layout l children ∈ element.walk ∧ l.kind = name

/-- Some definition of the one kind and name mentions the other, and that is defined too. -/
def Project.Refers (project : Project) (a b : Reference) : Prop :=
  (∃ d ∈ project.definitions, d.reference = a ∧ Mentions d.body b) ∧
    ∃ d ∈ project.definitions, d.reference = b

theorem mem_mentions_iff (d : Definition) (r : Reference) :
    r ∈ d.mentions ↔ Mentions d.body r := by
  unfold Definition.mentions
  rw [List.mem_filterMap]
  constructor
  · rintro ⟨node, inside, named⟩
    cases node with
    | component c =>
      obtain rfl := Option.some.inj named
      exact ⟨c, inside, rfl⟩
    | layout l children =>
      obtain rfl := Option.some.inj named
      exact ⟨l, children, inside, rfl⟩
    | cell k children => contradiction
  · cases r with
    | component name =>
      rintro ⟨c, inside, rfl⟩
      exact ⟨_, inside, rfl⟩
    | layout name =>
      rintro ⟨l, children, inside, rfl⟩
      exact ⟨_, inside, rfl⟩

namespace Project

theorem mem_nodes_iff (project : Project) (r : Reference) :
    r ∈ project.references.nodes ↔ ∃ d ∈ project.definitions, d.reference = r := by
  simp [references, List.mem_eraseDups]

/-- The steps of the graph are the references of the project. -/
theorem step_iff_refers (project : Project) (a b : Reference) :
    project.references.Step a b ↔ project.Refers a b := by
  rw [Refers, ← mem_nodes_iff]
  simp [ReferenceGraph.Step, references, List.mem_eraseDups, mem_mentions_iff, and_assoc]

theorem references_proper (project : Project) : project.references.Proper where
  source := fun a b step => by
    obtain ⟨⟨d, inside, named, -⟩, -⟩ := (project.step_iff_refers a b).mp step
    exact (project.mem_nodes_iff a).mpr ⟨d, inside, named⟩
  target := fun a b step =>
    (project.mem_nodes_iff b).mpr ((project.step_iff_refers a b).mp step).2
  distinct := fun a => nodup_eraseDups _

end Project

end Wireframe
