import CallVicinity.Draft.Pass
import CallVicinity.Graph.Basic
import CallVicinity.Reindent

/-!
# Graphs from drafts

`Draft.freeze` puts the declarations of a draft in source order, outer ones before inner ones that
start at the same byte, and turns the slots of the draft into indexes. `Graph.build` runs the passes
in their usual order first.
-/

namespace CallVicinity

namespace Draft

/-- Source order: by start, then the longer range first, then by slot. -/
def inOrder (a b : Record × Nat) : Bool :=
  let la := a.1.site.node.label
  let lb := b.1.site.node.label
  la.start < lb.start || (la.start == lb.start &&
    (lb.stop < la.stop || (la.stop == lb.stop && a.2 ≤ b.2)))

/-- The records with their slots in source order. -/
def ordered (d : Draft) : List (Record × Nat) :=
  d.records.toList.zipIdx.mergeSort inOrder

/-- The index of a slot in source order. -/
def position (order : List (Record × Nat)) (slot : Nat) : Nat :=
  order.findIdx (·.2 == slot)

/-- The owner of every declaration in source order, as an index. -/
def ownerIndexes (order : List (Record × Nat)) : List (Option Nat) :=
  order.map fun r => r.1.owner.map (position order)

/-- The indexes at which a list of owners holds `i`. -/
def childrenOf (owners : List (Option Nat)) (i : Nat) : List Nat :=
  (owners.zipIdx.filter fun o => o.1 == some i).map (·.2)

/-- The indexes of a set of slots. -/
def renumbered (order : List (Record × Nat)) (slots : IndexSet) : IndexSet :=
  IndexSet.ofList (slots.toList.map (position order))

/-- The declaration with index `i`, made from its record. -/
def declaration (source : List Char) (order : List (Record × Nat)) (i : Nat) (r : Record) :
    Declaration :=
  let node := r.site.node
  { id := r.id
    name := r.heading.name
    kind := r.heading.kind
    params := r.heading.params
    span := node.label.span source
    source := String.ofList (node.text source)
    printed := (node.reindented? source).map String.ofList
    owner := r.owner.map (position order)
    children := childrenOf (ownerIndexes order) i
    calls := renumbered order r.calls
    calledBy := renumbered order r.calledBy }

/-- The graph of the declarations recorded so far. -/
def freeze (d : Draft) (source : List Char) : Graph :=
  let order := d.ordered
  ⟨(order.zipIdx.map fun r => declaration source order r.2 r.1.1).toArray⟩

end Draft

/-- The call graph of a text with its parse tree. -/
def Graph.build (source : List Char) (tree : Node) : Graph :=
  (Draft.empty.runAll source tree.sites Pass.usual).freeze source

end CallVicinity
