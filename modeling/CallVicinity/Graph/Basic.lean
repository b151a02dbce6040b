import CallVicinity.Draft.Basic
import CallVicinity.IndexSet

/-!
# Call graphs

A graph is a list of declarations in source order. A declaration refers to others by index: to its
owner, to what it owns, to what it calls and to what calls it. Looking up an index that is past the
end gives `none`.
-/

namespace CallVicinity

/-- A function, method or class of a text. -/
structure Declaration where
  id : String
  name : String
  kind : DeclKind
  params : String
  span : Span
  /-- The text as it stands. -/
  source : String
  /-- The text as if it stood at the left margin. -/
  printed : Option String
  /-- The declaration around this one. -/
  owner : Option Nat
  /-- The declarations directly inside this one, ascending. -/
  children : List Nat
  calls : IndexSet
  calledBy : IndexSet
deriving DecidableEq, Inhabited

/-- The text to show for a declaration. -/
def Declaration.shown (d : Declaration) : String :=
  d.printed.getD d.source

/-- The declarations of a text in source order. -/
structure Graph where
  nodes : Array Declaration
deriving DecidableEq, Inhabited

namespace Graph

/-- The number of declarations. -/
def size (g : Graph) : Nat := g.nodes.size

/-- The declaration with an index. -/
def node? (g : Graph) (i : Nat) : Option Declaration := g.nodes[i]?

/-- The index of the declaration with an id. -/
def indexOf? (g : Graph) (id : String) : Option Nat :=
  g.nodes.findIdx? (·.id == id)

/-- The indexes of the declarations with a property, ascending. -/
def indexesWhere (g : Graph) (p : Declaration → Bool) : List Nat :=
  (g.nodes.toList.zipIdx.filter fun n => p n.1).map (·.2)

/-- The declarations without an owner. -/
def roots (g : Graph) : List Nat :=
  g.indexesWhere (·.owner.isNone)

/-- What a declaration calls and what calls it. -/
def neighbors? (g : Graph) (i : Nat) : Option IndexSet :=
  (g.node? i).map fun n => n.calls.union n.calledBy

/-- The declarations that a declaration calls. -/
def callees? (g : Graph) (i : Nat) : Option (List Declaration) := do
  (← g.node? i).calls.toList.mapM g.node?

/-- The declarations that call a declaration. -/
def callers? (g : Graph) (i : Nat) : Option (List Declaration) := do
  (← g.node? i).calledBy.toList.mapM g.node?

/-- The owners met from `next` on upwards, at most `fuel` of them. -/
def ownersFrom? (g : Graph) : Nat → Option Nat → Option (List Nat)
  | _, none => some []
  | 0, some _ => some []
  | fuel + 1, some i => do
    let n ← g.node? i
    return i :: (← g.ownersFrom? fuel n.owner)

/-- The declarations around a declaration, nearest first. A chain of owners without repetition has
at most as many members as the graph. -/
def ancestors? (g : Graph) (i : Nat) : Option (List Nat) := do
  g.ownersFrom? g.size (← g.node? i).owner

/-- The number of call edges. -/
def edgeCount (g : Graph) : Nat :=
  g.nodes.toList.foldr (fun n total => n.calls.size + total) 0

/-- The counts that describe a graph. -/
structure Stats where
  declarations : Nat
  calls : Nat
  roots : Nat
  maxInDegree : Nat
  maxOutDegree : Nat
deriving DecidableEq, Repr

/-- The counts of a graph. -/
def stats (g : Graph) : Stats where
  declarations := g.size
  calls := g.edgeCount
  roots := g.roots.length
  maxInDegree := (g.nodes.toList.map fun n => n.calledBy.size).foldl max 0
  maxOutDegree := (g.nodes.toList.map fun n => n.calls.size).foldl max 0

end Graph

end CallVicinity
