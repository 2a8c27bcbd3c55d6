/-! Breadth-first exploration of a graph with labelled edges.

The graph is given by a function that lists the edges out of a node. An
exploration goes level by level: the first level holds the given nodes, the next
one the new nodes that their edges lead to, in the order of the edges. Every node
is visited once, with the labels on the path that found it, so its path is as
short as any; where the edges of a node come in increasing order of their labels,
it is also the first of the shortest in that order.

`bound` limits the number of levels. A level before the last has a node that no
earlier level has, so a bound on the number of nodes that can be reached is one
on the number of levels, and each caller gives such a bound. -/
namespace FormalLanguage.Exploration

/-- A node and the labels read on the way to it. -/
structure Visit (ν : Type u) (σ : Type v) where
  node : ν
  path : List σ
deriving DecidableEq

variable {ν : Type u} {σ : Type v}

/-- One edge further. -/
def Visit.successors (edges : ν → List (σ × ν)) (v : Visit ν σ) : List (Visit ν σ) :=
  (edges v.node).map fun (label, node) => ⟨node, v.path ++ [label]⟩

variable [DecidableEq ν]

/-- Of several visits to one node the first, and none to a node in `known`. -/
def fresh (known : List ν) : List (Visit ν σ) → List (Visit ν σ)
  | [] => []
  | v :: rest =>
    if v.node ∈ known then fresh known rest else v :: fresh (v.node :: known) rest

/-- The visits of `level` and of the levels after it, up to the first level with a node that
satisfies `goal`. All nodes of `level` and of the levels before it are in `known`. -/
def visitsFrom (edges : ν → List (σ × ν)) (goal : ν → Bool) :
    Nat → List ν → List (Visit ν σ) → List (Visit ν σ)
  | 0, _, level => level
  | bound + 1, known, level =>
    if level.isEmpty || level.any (goal ·.node) then level
    else
      let next := fresh known (level.flatMap (·.successors edges))
      level ++ visitsFrom edges goal bound (next.map (·.node) ++ known) next

def visitsUntil (edges : ν → List (σ × ν)) (goal : ν → Bool) (bound : Nat) (starts : List ν) :
    List (Visit ν σ) :=
  let level := fresh [] (starts.map (⟨·, []⟩))
  visitsFrom edges goal bound (level.map (·.node)) level

/-- Every node that can be reached, in the order of discovery. -/
def reached (edges : ν → List (σ × ν)) (bound : Nat) (starts : List ν) : List ν :=
  (visitsUntil edges (fun _ => false) bound starts).map (·.node)

/-- Every node that can be reached along edges that carry no label. -/
def closure (next : ν → List ν) (bound : Nat) (starts : List ν) : List ν :=
  reached (fun n => (next n).map ((), ·)) bound starts

/-- The path to the first node found that satisfies `goal`. -/
def pathTo? (edges : ν → List (σ × ν)) (goal : ν → Bool) (bound : Nat) (start : ν) :
    Option (List σ) :=
  ((visitsUntil edges goal bound [start]).find? (goal ·.node)).map (·.path)

end FormalLanguage.Exploration
