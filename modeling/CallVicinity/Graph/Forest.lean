import CallVicinity.Graph.Basic

/-!
# Ownership forests

The declarations of a graph nested in their owners. `Forest.restrict` keeps the declarations of a
set whose owners are all kept too.
-/

namespace CallVicinity

/-- A declaration, by index, with the declarations inside it. -/
inductive Tree where
  | node (index : Nat) (children : List Tree)
deriving Repr, Inhabited

namespace Tree

/-- The declaration at the top. -/
def index : Tree → Nat
  | .node i _ => i

/-- The trees directly below the top. -/
def children : Tree → List Tree
  | .node _ cs => cs

mutual

/-- The indexes of a tree in pre-order, each with its depth. -/
def flattenAt (depth : Nat) : Tree → List (Nat × Nat)
  | .node i cs => (depth, i) :: Tree.flattenForestAt (depth + 1) cs

/-- The indexes of a list of trees in pre-order, each with its depth. -/
def flattenForestAt (depth : Nat) : List Tree → List (Nat × Nat)
  | [] => []
  | t :: ts => Tree.flattenAt depth t ++ Tree.flattenForestAt depth ts

end

end Tree

/-- Trees side by side. -/
abbrev Forest := List Tree

namespace Forest

/-- The indexes of a forest in pre-order, each with its depth. -/
def flatten (f : Forest) : List (Nat × Nat) :=
  Tree.flattenForestAt 0 f

/-- The indexes of a forest in pre-order. -/
def indexes (f : Forest) : List Nat :=
  f.flatten.map (·.2)

end Forest

mutual

/-- The tree without the trees below it whose top is not in the set. -/
def Tree.restrict (keep : IndexSet) : Tree → Tree
  | .node i cs => .node i (Forest.restrict keep cs)

/-- The trees whose top is in the set, restricted in the same way. -/
def Forest.restrict (keep : IndexSet) : List Tree → List Tree
  | [] => []
  | t :: ts =>
    if t.index ∈ keep then Tree.restrict keep t :: Forest.restrict keep ts
    else Forest.restrict keep ts

end

namespace Graph

/-- The tree of a declaration and all that it owns, `fuel` levels deep; `none` where an index is
past the end. -/
def treeAt? (g : Graph) : Nat → Nat → Option Tree
  | 0, i => some (.node i [])
  | fuel + 1, i => do
    let n ← g.node? i
    return .node i (← n.children.mapM (g.treeAt? fuel))

/-- All declarations nested in their owners. Nesting that does not repeat a declaration is at most
as deep as the graph is large. -/
def forest? (g : Graph) : Option Forest :=
  g.roots.mapM (g.treeAt? g.size)

end Graph

end CallVicinity
