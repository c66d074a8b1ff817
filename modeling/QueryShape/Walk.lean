/-!
# Depth-first walks

A walk through a graph given by the successors of each node. It lists the nodes in the order in
which it first reaches them, each once: a node, then everything reached from its successors, one
after another. Nodes that were reached before are not entered again, so that cycles are no obstacle.
-/

set_option autoImplicit false

namespace QueryShape.Walk

variable {α : Type} [DecidableEq α]

/-- Adds a node and everything reached from it to the nodes reached so far. The bound limits how
deeply the walk goes; every node that it enters is a new one, so the number of nodes that have
successors is bound enough. -/
def visit (successors : α → List α) : Nat → List α → α → List α
  | 0, reached, node => if node ∈ reached then reached else reached ++ [node]
  | bound + 1, reached, node =>
    if node ∈ reached then reached
    else (successors node).foldl (visit successors bound) (reached ++ [node])

def fromAll (successors : α → List α) (bound : Nat) (starts : List α) : List α :=
  starts.foldl (visit successors bound) []

/-- Whether none of the nodes is reached from its successors. -/
def isAcyclic (successors : α → List α) (nodes : List α) : Bool :=
  nodes.all fun node => !(fromAll successors nodes.length (successors node)).contains node

end QueryShape.Walk
