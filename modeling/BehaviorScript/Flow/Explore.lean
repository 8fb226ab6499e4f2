/-!
# Breadth-first exploration

One traversal serves every graph of the library. Each node is found once,
with the label of the first arrival at it, and visited in the order in
which it was found. What is left to find is part of the state: an
exploration takes one node out of it for each one it puts into the queue,
so that as many visits as there are nodes always suffice.
-/

namespace BehaviorScript

namespace Explore

variable {α δ : Type} [DecidableEq α]

/-- The first arrival at each node that is still unseen, in order. -/
def fresh (unseen : List α) : List (α × δ) → List (α × δ)
  | [] => []
  | (a, d) :: rest =>
    if a ∈ unseen then (a, d) :: fresh (unseen.erase a) rest else fresh unseen rest

/-- The unseen nodes without those just found. -/
def remaining (unseen : List α) (found : List (α × δ)) : List α :=
  found.foldl (fun left arrival => left.erase arrival.1) unseen

/-- At most `fuel` visits from a queue of found nodes, in order. -/
def visits (next : α → δ → List (α × δ)) : Nat → List α → List (α × δ) → List (α × δ)
  | 0, _, _ => []
  | _ + 1, _, [] => []
  | fuel + 1, unseen, (a, d) :: queue =>
    let found := fresh unseen (next a d)
    (a, d) :: visits next fuel (remaining unseen found) (queue ++ found)

end Explore

/-- The nodes that can be reached from `start`, each with the label of
the first arrival at it, in the order of the visits. `next` lists the
arrivals that a visit leads to; those outside of `nodes` are dropped. -/
def explore {α δ : Type} [DecidableEq α] (nodes : List α) (next : α → δ → List (α × δ))
    (start : α) (label : δ) : List (α × δ) :=
  if start ∈ nodes then
    Explore.visits next nodes.length (nodes.erase start) [(start, label)]
  else []

end BehaviorScript
