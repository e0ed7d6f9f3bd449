import Wireframe.Proofs.Analysis
import Wireframe.Proofs.Validation

/-!
# The definitions that the report on circular references names

A definition may lie on a cycle and still be missing from the report. The search leaves a resolved
node alone, so of two ways back to the same definition only the first closes a chain, and what lies
on the other is not listed. What is listed is enough to see where each cycle can be broken: two
neighbours of every cycle stand side by side at the end of a chain, and among the definitions that
lead to each other there is one into which all those references close a chain. A definition itself
is named if from it a cycle leads through definitions that nothing else on a cycle refers to.

## Main definitions

* `SoleStep` — the one step to a point that some cycle takes.

## Main results

* `ReferenceGraph.exists_closing_pair` — every closed walk takes a step that closes a chain.
* `ReferenceGraph.exists_entrance` — a point of every cycle to which only closing steps lead back.
* `named_on_cycle` — what the report names of every cycle.
-/

namespace Wireframe

section Walk

variable {α : Type} {r : α → α → Prop} {walk : List α} {a b : α}

/-- Both ends of the last step of a walk lie on it. -/
theorem mem_of_closingStep? (step : closingStep? walk = some (a, b)) : a ∈ walk ∧ b ∈ walk := by
  obtain ⟨start, before, step⟩ := Option.bind_eq_some_iff.mp step
  obtain ⟨last, after, same⟩ := Option.map_eq_some_iff.mp step
  obtain ⟨rfl, rfl⟩ := Prod.mk.inj same
  exact ⟨List.dropLast_subset _ (List.mem_of_getLast? before), List.mem_of_getLast? after⟩

/-- Two points of a chain that stand side by side are joined by a step. -/
theorem rel_of_sideBySide (steps : walk.IsChain r) (side : [a, b] <:+: walk) :
    r a b := by
  obtain ⟨front, rest, rfl⟩ := side
  rw [List.append_assoc] at steps
  exact (List.isChain_append_cons_cons.mp steps).2.1

/-- Every point of a closed walk comes right behind a point of the walk that it leads back to. -/
theorem ClosedWalk.exists_before (closed : ClosedWalk r walk) (inside : b ∈ walk) :
    ∃ a ∈ walk, r a b ∧ Relation.ReflTransGen r b a := by
  -- The point where the walk starts is taken where the walk ends.
  obtain ⟨front, a, rest, rfl⟩ : ∃ front a rest, walk = front ++ a :: b :: rest := by
    obtain ⟨front, rest, rfl⟩ := List.append_of_mem inside
    rcases List.eq_nil_or_concat front with rfl | ⟨front, a, rfl⟩
    · rcases List.eq_nil_or_concat rest with rfl | ⟨middle, last, rfl⟩
      · exact absurd closed.moves (by simp)
      · obtain rfl : b = last := by
          have same := closed.closed
          rw [List.nil_append, List.concat_eq_append, List.head?_cons, ← List.cons_append,
            List.getLast?_concat] at same
          exact Option.some.inj same
        rcases List.eq_nil_or_concat middle with rfl | ⟨middle, a, rfl⟩
        · exact ⟨[], b, [], rfl⟩
        · exact ⟨b :: middle, a, [], by simp⟩
    · exact ⟨front, a, rest, by simp⟩
  obtain ⟨before, step, after⟩ := List.isChain_append_cons_cons.mp closed.steps
  refine ⟨a, by simp, step, ?_⟩
  have onward := List.relationReflTransGen_of_exists_isChain _ after (List.cons_ne_nil b rest)
  have again := List.relationReflTransGen_of_exists_isChain _ before (by simp)
  have ends : (b :: rest).getLast (List.cons_ne_nil b rest) = (front ++ [a]).head (by simp) := by
    have same := closed.closed
    rw [List.getLast?_append_cons, List.getLast?_cons_cons,
      List.getLast?_eq_some_getLast (List.cons_ne_nil b rest)] at same
    cases front with
    | nil => exact (Option.some.inj same).symm
    | cons first front => exact (Option.some.inj same).symm
  rw [ends] at onward
  simpa using onward.trans again

/-- A step to a point to which no other point of a cycle leads. -/
structure SoleStep (r : α → α → Prop) (a b : α) : Prop where
  step : r a b
  sole : ∀ c, r c b → Relation.ReflTransGen r b c → c = a

/-- A closed walk that meets a point comes from where sole steps lead there. -/
theorem ClosedWalk.mem_of_sole (closed : ClosedWalk r walk)
    (steps : Relation.ReflTransGen (SoleStep r) a b) (inside : b ∈ walk) : a ∈ walk := by
  induction steps with
  | refl => exact inside
  | tail _ last ih =>
    obtain ⟨before, onWalk, step, back⟩ := closed.exists_before inside
    obtain rfl := last.sole before step back
    exact ih onWalk

/-- Of a group of points in a settled list, one is reached from no point of the group. -/
theorem Settled.exists_source {points : List α} (settled : Settled r points) (group : α → Prop)
    (some : ∃ a ∈ points, group a) :
    ∃ b ∈ points, group b ∧ ∀ a ∈ points, group a → ¬ r a b := by
  induction points with
  | nil => simp at some
  | cons first later ih =>
    by_cases source : group first ∧ first ∉ later
    · -- No step leads from the rest of the list, or from the point itself, to what comes first.
      refine ⟨first, List.mem_cons_self, source.1, fun a inside _ step => source.2 ?_⟩
      rcases List.mem_cons.mp inside with rfl | inside
      · exact settled.1 a step
      · exact settled.2.step inside step
    · have again : group first → first ∈ later := by simpa using source
      have some' : ∃ a ∈ later, group a := by
        obtain ⟨a, inside, grouped⟩ := some
        rcases List.mem_cons.mp inside with rfl | inside
        · exact ⟨a, again grouped, grouped⟩
        · exact ⟨a, inside, grouped⟩
      obtain ⟨b, inside, grouped, none⟩ := ih settled.2 some'
      refine ⟨b, List.mem_cons_of_mem _ inside, grouped, fun a found member => ?_⟩
      rcases List.mem_cons.mp found with rfl | found
      · exact none a (again member) member
      · exact none a found member

end Walk

namespace ReferenceGraph

variable {g : ReferenceGraph} {a b : Reference}

/-- A closing step is the last step of a chain. -/
theorem exists_chain_of_closing (closing : some (a, b) ∈ g.search.closing) :
    ∃ chain ∈ g.chains, closingStep? chain = some (a, b) := by
  rw [closing_search] at closing
  obtain ⟨chain, listed, step⟩ := List.mem_map.mp closing
  exact ⟨chain, listed, step⟩

theorem closedWalk_of_mem_chains (proper : g.Proper) {chain : List Reference}
    (listed : chain ∈ g.chains) : ClosedWalk g.Step chain :=
  (search_invariant proper).1.walks chain listed

/-- Every closed walk takes a step that closes a chain. -/
theorem exists_closing_pair (proper : g.Proper) {walk : List Reference}
    (closed : ClosedWalk g.Step walk) :
    ∃ a b, some (a, b) ∈ g.search.closing ∧ [a, b] <:+: walk := by
  by_contra none
  -- Otherwise the walk is one of the steps that are kept.
  have kept : ClosedWalk (g.Kept g.search) walk :=
    { closed with
      steps := by
        refine List.isChain_iff_forall_rel_of_append_cons_cons.mpr fun a b front rest split => ?_
        have side : [a, b] <:+: walk := ⟨front, rest, by simp [split]⟩
        exact ⟨rel_of_sideBySide closed.steps side, fun closing => none ⟨a, b, closing, side⟩⟩ }
  obtain ⟨a, cycle⟩ := kept.exists_cycle
  exact acyclic_kept proper a cycle

/-- Among the nodes on the cycles through a node is one to which all steps back close a chain. -/
theorem exists_entrance (proper : g.Proper) (cycle : Relation.TransGen g.Step a a) :
    ∃ b, Relation.ReflTransGen g.Step a b ∧ Relation.ReflTransGen g.Step b a ∧
      ∀ c, g.Step c b → Relation.ReflTransGen g.Step b c → some (c, b) ∈ g.search.closing := by
  obtain ⟨kept, all⟩ := search_invariant proper
  obtain ⟨next, step, -⟩ := Relation.TransGen.head'_iff.mp cycle
  obtain ⟨b, -, ⟨there, back⟩, none⟩ := kept.settled.exists_source
    (fun b => Relation.ReflTransGen g.Step a b ∧ Relation.ReflTransGen g.Step b a)
    ⟨a, all (proper.source a next step), .refl, .refl⟩
  refine ⟨b, there, back, fun c step onward => ?_⟩
  by_contra open'
  exact none c (all (proper.source c b step)) ⟨there.trans onward, .head step back⟩ ⟨step, open'⟩

/-- A node is on a chain if sole steps lead from it to where a step leads back to it. -/
theorem exists_chain_of_sole (proper : g.Proper)
    (steps : Relation.ReflTransGen (SoleStep g.Step) a b) (back : g.Step b a) :
    ∃ chain ∈ g.chains, a ∈ chain := by
  by_contra none
  -- A chain closed by one of the steps would meet a point to which sole steps lead from the node.
  have kept : ∀ {c d}, g.Step c d → Relation.ReflTransGen (SoleStep g.Step) a d →
      g.Kept g.search c d := by
    intro c d step reached
    refine ⟨step, fun closing => ?_⟩
    obtain ⟨chain, listed, last⟩ := exists_chain_of_closing closing
    exact none ⟨chain, listed, (closedWalk_of_mem_chains proper listed).mem_of_sole reached
      (mem_of_closingStep? last).2⟩
  have there : Relation.ReflTransGen (g.Kept g.search) a b := by
    clear back
    induction steps with
    | refl => exact .refl
    | tail before last ih => exact ih.tail (kept last.step (before.tail last))
  exact acyclic_kept proper a (.tail' there (kept back .refl))

end ReferenceGraph

theorem Project.step_eq_refers (project : Project) : project.references.Step = project.Refers := by
  ext a b
  exact project.step_iff_refers a b

/-- If there is a chain, an error lists all of them. -/
theorem Project.exists_cycle_report (project : Project) (map : SourceMap)
    (some : project.references.chains ≠ []) :
    ∃ d ∈ validate project map, d.code = .definitionCycle ∧
      d.message = "circular definitions: " ++ "; ".intercalate
        (project.references.chains.map fun chain =>
          " → ".intercalate (chain.map Reference.name)) := by
  let finding : Finding :=
    ⟨.definitionCycle (project.references.chains.map (·.map Reference.name)), project.id⟩
  have found : finding ∈ project.cycleFindings := by
    rw [Project.cycleFindings]
    split
    case h_1 none => exact absurd none some
    case h_2 => exact List.mem_singleton_self _
  refine ⟨finding.diagnostic map, ?_, rfl, ?_⟩
  · exact List.mem_map_of_mem (List.mem_append_right _ found)
  · simp only [Finding.diagnostic, finding, Problem.message_definitionCycle, List.map_map]
    rfl

/-- What the report on circular references names of the cycles. Every closed walk of the references
has two neighbours that stand at the end of a listed chain. Of the definitions on the cycles through
one of them, some definition stands at the end of a chain behind each of them that refers to it. A
definition from which a cycle leads only through definitions that nothing else on a cycle refers to
is named itself. -/
theorem named_on_cycle (project : Project) (map : SourceMap) :
    let chains := project.references.chains
    let refers := project.Refers
    (∀ walk, ClosedWalk refers walk →
      ∃ chain ∈ chains, ∃ a b, closingStep? chain = some (a, b) ∧ [a, b] <:+: walk) ∧
    (∀ r, Relation.TransGen refers r r → ∃ s, Relation.ReflTransGen refers r s ∧
      Relation.ReflTransGen refers s r ∧ ∀ a, refers a s → Relation.ReflTransGen refers s a →
        ∃ chain ∈ chains, closingStep? chain = some (a, s)) ∧
    ∀ r a, Relation.ReflTransGen (SoleStep refers) r a → refers a r →
      ∃ chain ∈ chains, r ∈ chain ∧
        ∃ report ∈ validate project map, report.code = .definitionCycle ∧
          report.message = "circular definitions: " ++ "; ".intercalate
            (chains.map fun chain => " → ".intercalate (chain.map Reference.name)) := by
  intro chains refers
  have proper := project.references_proper
  have same : refers = project.references.Step := project.step_eq_refers.symm
  rw [same]
  refine ⟨fun walk closed => ?_, fun r cycle => ?_, fun r a steps back => ?_⟩
  · obtain ⟨a, b, closing, side⟩ := ReferenceGraph.exists_closing_pair proper closed
    obtain ⟨chain, listed, last⟩ := ReferenceGraph.exists_chain_of_closing closing
    exact ⟨chain, listed, a, b, last, side⟩
  · obtain ⟨s, there, again, closing⟩ := ReferenceGraph.exists_entrance proper cycle
    exact ⟨s, there, again, fun a step onward =>
      ReferenceGraph.exists_chain_of_closing (closing a step onward)⟩
  · obtain ⟨chain, listed, named⟩ := ReferenceGraph.exists_chain_of_sole proper steps back
    exact ⟨chain, listed, named, project.exists_cycle_report map (List.ne_nil_of_mem listed)⟩

/-- The nodes of a reference graph with their neighbours. -/
def ReferenceGraph.rows (g : ReferenceGraph) : List (Reference × List Reference) :=
  g.nodes.map fun r => (r, g.neighbours r)

/-- The steps of a graph can be read off its rows. -/
theorem ReferenceGraph.step_iff_rows {g : ReferenceGraph} (proper : g.Proper) (a b : Reference) :
    g.Step a b ↔ ∃ row ∈ g.rows, row.1 = a ∧ b ∈ row.2 := by
  constructor
  · exact fun step => ⟨_, List.mem_map_of_mem (proper.source a b step), rfl, step⟩
  · rintro ⟨row, inside, rfl, found⟩
    obtain ⟨r, -, rfl⟩ := List.mem_map.mp inside
    exact found

/-- A text with two definitions that refer to each other, and one of them to itself. -/
def loopText : String :=
  "project \"P\" \x7b\n" ++
  "define Component \"A\" \x7b layout stack \x7b component A component B \x7d \x7d\n" ++
  "define Component \"B\" \x7b component A \x7d\n" ++
  "screen Main \x7b layout stack \x7b component Divider \x7d \x7d \x7d\n"

theorem named_on_cycle_loopText : ∃ project map, (tolerant loopText).built = some (project, map) ∧
    ∃ chain ∈ project.references.chains, .component "A" ∈ chain ∧
      ∃ report ∈ validate project map, report.code = .definitionCycle ∧
        report.message = "circular definitions: " ++ "; ".intercalate
          (project.references.chains.map fun chain =>
            " → ".intercalate (chain.map Reference.name)) := by
  have rows : (tolerant loopText).built.map (·.1.references.rows) =
      some [(.component "A", [.component "A", .component "B"]),
        (.component "B", [.component "A"])] := by decide +kernel
  obtain ⟨⟨project, map⟩, built, listed⟩ := Option.map_eq_some_iff.mp rows
  have refers : ∀ a b, project.Refers a b ↔
      ∃ row ∈ project.references.rows, row.1 = a ∧ b ∈ row.2 := fun a b => by
    rw [← project.step_iff_refers, ReferenceGraph.step_iff_rows project.references_proper]
  have only : ∀ row ∈ project.references.rows,
      .component "B" ∈ row.2 → row.1 = .component "A" := by
    rw [listed]
    decide
  have sole : SoleStep project.Refers (.component "A") (.component "B") :=
    { step := (refers _ _).mpr (by rw [listed]; decide)
      sole := fun c step _ => by
        obtain ⟨row, inside, rfl, found⟩ := (refers _ _).mp step
        exact only row inside found }
  exact ⟨project, map, built, (named_on_cycle project map).2.2 (.component "A") (.component "B")
    (.single sole) ((refers _ _).mpr (by rw [listed]; decide))⟩

/-- A text in which a definition refers to two others, of which one refers back and the other leads
back only through the one. -/
def detourText : String :=
  "project \"P\" \x7b\n" ++
  "define Component \"A\" \x7b layout stack \x7b component B component C \x7d \x7d\n" ++
  "define Component \"B\" \x7b component A \x7d\n" ++
  "define Component \"C\" \x7b component B \x7d\n" ++
  "screen Main \x7b layout stack \x7b component Divider \x7d \x7d \x7d\n"

/-- A definition on a cycle need not be named. -/
theorem unnamed_on_cycle_detourText :
    ∃ project map, (tolerant detourText).built = some (project, map) ∧
      Relation.TransGen project.Refers (.component "C") (.component "C") ∧
      ∀ chain ∈ project.references.chains, "C" ∉ chain.map Reference.name := by
  have found : (tolerant detourText).built.map
      (fun b => (b.1.references.rows, b.1.references.chains)) =
      some ([(.component "A", [.component "B", .component "C"]), (.component "B", [.component "A"]),
        (.component "C", [.component "B"])],
        [[.component "A", .component "B", .component "A"]]) := by decide +kernel
  obtain ⟨⟨project, map⟩, built, both⟩ := Option.map_eq_some_iff.mp found
  obtain ⟨rows, chains⟩ := Prod.mk.inj both
  have refers : ∀ a b, (∃ row ∈ project.references.rows, row.1 = a ∧ b ∈ row.2) →
      project.Refers a b := fun a b row => by
    rwa [← project.step_iff_refers, ReferenceGraph.step_iff_rows project.references_proper]
  rw [rows] at refers
  refine ⟨project, map, built, ?_, by rw [chains]; decide⟩
  exact .head (refers _ (.component "B") (by decide))
    (.head (refers _ (.component "A") (by decide)) (.single (refers _ _ (by decide))))

end Wireframe
