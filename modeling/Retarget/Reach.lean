/-
# Reach -- breadth-first search in a finite graph

`explore` visits the nodes reachable from a start by following `next`, nearest first and in the
order of the successor lists. Every node enters the queue at most once, so the number of nodes
of the graph bounds the number of steps.
-/

namespace Retarget

/-- The nodes of `xs` that are not in `seen`, each once. -/
def unseen {α : Type} [BEq α] (seen : List α) : List α → List α
  | [] => []
  | x :: xs => if seen.contains x then unseen seen xs else x :: unseen (x :: seen) xs

/-- Breadth-first search with the queue and the nodes met so far, in the order met. -/
def exploreFrom {α : Type} [BEq α] (next : α → List α) : Nat → List α → List α → List α
  | 0, _, seen => seen
  | _, [], seen => seen
  | steps + 1, x :: queue, seen =>
    let fresh := unseen seen (next x)
    exploreFrom next steps (queue ++ fresh) (seen ++ fresh)

/-- The nodes reachable from `starts` in at most `size` visits, the starts included. -/
def explore {α : Type} [BEq α] (next : α → List α) (size : Nat) (starts : List α) : List α :=
  exploreFrom next size (unseen [] starts) (unseen [] starts)

end Retarget
