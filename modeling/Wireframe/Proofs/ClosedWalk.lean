import Mathlib.Data.List.Chain
import Mathlib.Data.List.Nodup
import Mathlib.Logic.Relation

/-!
# Closed walks

A closed walk of a relation starts and ends at one point and meets no other point twice. Its last
step closes it. A relation has a closed walk only if it has a cycle, and a list in which every step
from a point leads to a later point carries no cycle: the points can be told apart by how much of
the list is left behind them.

## Main definitions

* `Acyclic` — no point of a relation reaches itself.
* `ClosedWalk` — the points along a closed walk.
* `closingStep?` — the last step of a walk.
* `Settled` — a list in which steps go from earlier to later points.

## Main results

* `ClosedWalk.exists_cycle` — a closed walk is a cycle.
* `Settled.acyclic_at` — no point of a settled list lies on a cycle.
-/

namespace Wireframe

variable {α : Type} {r : α → α → Prop}

/-- No point reaches itself in one or more steps. -/
def Acyclic (r : α → α → Prop) : Prop :=
  ∀ a, ¬ Relation.TransGen r a a

/-- The points along a walk that ends where it starts and meets no point twice in between. -/
structure ClosedWalk (r : α → α → Prop) (walk : List α) : Prop where
  steps : walk.IsChain r
  moves : 2 ≤ walk.length
  closed : walk.head? = walk.getLast?
  simple : walk.dropLast.Nodup

/-- The last step of a walk. -/
def closingStep? (walk : List α) : Option (α × α) :=
  walk.dropLast.getLast?.bind fun a => walk.getLast?.map fun b => (a, b)

@[simp]
theorem closingStep?_append_pair (walk : List α) (a b : α) :
    closingStep? (walk ++ [a, b]) = some (a, b) := by
  have split : walk ++ [a, b] = (walk ++ [a]) ++ [b] := by simp
  rw [closingStep?, split, List.dropLast_concat, List.getLast?_concat, List.getLast?_concat]
  rfl

theorem ClosedWalk.exists_cycle {walk : List α} (closed : ClosedWalk r walk) :
    ∃ a, Relation.TransGen r a a := by
  match walk, closed with
  | a :: b :: rest, closed =>
    have chain := List.isChain_cons_cons.mp closed.steps
    have back : (b :: rest).getLast (by simp) = a := by
      have same := closed.closed
      rw [List.head?_cons, List.getLast?_cons_cons, List.getLast?_eq_some_getLast (by simp)] at same
      exact (Option.some.inj same).symm
    exact ⟨a, .head' chain.1 (List.relationReflTransGen_of_exists_isChain_cons rest chain.2 back)⟩
  | [_], closed => exact absurd closed.moves (by simp)
  | [], closed => exact absurd closed.moves (by simp)

/-- A list up to one of its points, the point itself, and what follows. -/
theorem exists_eq_takeWhile_append [DecidableEq α] {path : List α} {point : α}
    (inside : point ∈ path) : ∃ rest, path = path.takeWhile (· != point) ++ point :: rest := by
  obtain ⟨front, rest, rfl, fresh⟩ := List.eq_append_cons_of_mem inside
  have all : ∀ a ∈ front, (a != point) = true := by
    intro a found
    simp only [bne_iff_ne, ne_eq]
    rintro rfl
    exact fresh found
  refine ⟨rest, ?_⟩
  rw [List.takeWhile_append_of_pos all, List.takeWhile_cons_of_neg (by simp), List.append_nil]

section Closing

variable [DecidableEq α] {path : List α} {node next : α}

/-- A path, listed from its end to its start, is closed by a step back to one of its points. -/
theorem closedWalk_of_path (chain : (node :: path).IsChain fun a b => r b a)
    (simple : (node :: path).Nodup) (back : next ∈ node :: path) (step : r node next) :
    ClosedWalk r (next :: ((node :: path).takeWhile (· != next)).reverse ++ [next]) ∧
      closingStep? (next :: ((node :: path).takeWhile (· != next)).reverse ++ [next]) =
        some (node, next) := by
  obtain ⟨rest, split⟩ := exists_eq_takeWhile_append back
  generalize (node :: path).takeWhile (· != next) = front at split ⊢
  have reversed : next :: front.reverse = (front ++ [next]).reverse := by simp
  have part : front ++ [next] <+: node :: path := ⟨rest, by simp [split]⟩
  -- The walk ends with the step from the end of the path.
  obtain ⟨start, last⟩ : ∃ start, next :: front.reverse = start ++ [node] := by
    cases front with
    | nil => exact ⟨[], by simpa using (List.cons.inj split).1.symm⟩
    | cons first front =>
      obtain rfl := (List.cons.inj split).1
      exact ⟨next :: front.reverse, by simp⟩
  have walk : next :: front.reverse ++ [next] = start ++ [node, next] := by
    rw [last, List.append_assoc]
    rfl
  refine ⟨⟨?_, by simp, ?_, ?_⟩, ?_⟩
  · -- Up to that step the walk is part of the path, read from its start.
    rw [walk, List.isChain_append_cons_cons, ← last, reversed, List.isChain_reverse]
    have along := List.IsChain.prefix chain part
    exact ⟨along, step, List.isChain_singleton _⟩
  · rw [List.getLast?_concat, List.cons_append, List.head?_cons]
  · rw [List.dropLast_concat, reversed, List.nodup_reverse]
    exact simple.sublist part.sublist
  · rw [walk, closingStep?_append_pair]

end Closing

/-- Every step from a point of the list leads to a later point. -/
def Settled (r : α → α → Prop) : List α → Prop
  | [] => True
  | a :: later => (∀ b, r a b → b ∈ later) ∧ Settled r later

theorem Settled.mono {r' : α → α → Prop} (imp : ∀ a b, r' a b → r a b) :
    ∀ {points : List α}, Settled r points → Settled r' points
  | [], _ => trivial
  | _ :: _, settled => ⟨fun b step => settled.1 b (imp _ b step), settled.2.mono imp⟩

/-- A step from a settled point leads to a settled point. -/
theorem Settled.step {points : List α} (settled : Settled r points) {a b : α} (inside : a ∈ points)
    (step : r a b) : b ∈ points := by
  induction points with
  | nil => contradiction
  | cons first later ih =>
    rcases List.mem_cons.mp inside with rfl | inside
    · exact List.mem_cons_of_mem _ (settled.1 b step)
    · exact List.mem_cons_of_mem _ (ih settled.2 inside)

theorem Settled.transGen {points : List α} (settled : Settled r points) {a b : α}
    (inside : a ∈ points) (steps : Relation.TransGen r a b) : b ∈ points := by
  induction steps with
  | single step => exact settled.step inside step
  | tail _ step ih => exact settled.step ih step

/-- No point of a settled list lies on a cycle. -/
theorem Settled.acyclic_at {points : List α} (settled : Settled r points) :
    ∀ a ∈ points, ¬ Relation.TransGen r a a := by
  induction points with
  | nil => simp
  | cons first later ih =>
    intro a inside cycle
    -- Only the first point is in question, and from there every step leads behind it for good.
    have behind : a ∉ later := fun found => ih settled.2 a found cycle
    obtain rfl : a = first := by simpa [behind] using inside
    obtain ⟨b, step, rest⟩ := Relation.TransGen.head'_iff.mp cycle
    have reached := settled.1 b step
    rcases Relation.reflTransGen_iff_eq_or_transGen.mp rest with rfl | rest
    · exact behind reached
    · exact behind (settled.2.transGen reached rest)

end Wireframe
