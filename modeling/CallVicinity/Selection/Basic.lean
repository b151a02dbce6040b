import CallVicinity.Failure
import CallVicinity.Selection.Reach
import CallVicinity.Selection.Seeds

/-!
# Selections

A selection is the part of a graph around some seeds: the declarations to show in full, those to
show in outline and those that are there because they hold one of the others.
-/

namespace CallVicinity

/-- What to select. -/
structure Request where
  seeds : List String
  fullRadius : Nat
  contextRadius : Nat
deriving DecidableEq, Repr

/-- The radius of the outline, which is never below that of the full texts. -/
def Request.reach (r : Request) : Nat := max r.contextRadius r.fullRadius

/-- A part of a graph. -/
structure Selection where
  seeds : IndexSet
  fullDetail : IndexSet
  context : IndexSet
  included : IndexSet
  distances : Distances
  fullRadius : Nat
  contextRadius : Nat
deriving DecidableEq

namespace Graph

/-- The declarations that the tokens stand for. -/
def resolve (g : Graph) (tokens : List String) : Except Failure IndexSet :=
  let found := g.matchingAny tokens
  if found.isEmpty then .error (.seeds tokens) else .ok found

/-- The part of a graph within the radii of some seeds; `none` where a seed is past the end. -/
def selectFrom? (g : Graph) (seeds : IndexSet) (r : Request) : Option Selection := do
  let distances ← g.reach? seeds r.reach
  let context := distances.reached
  let included ← g.closure? context
  return {
    seeds
    fullDetail := distances.within r.fullRadius
    context
    included
    distances
    fullRadius := r.fullRadius
    contextRadius := r.reach }

/-- The part of a graph that a request asks for. -/
def select (g : Graph) (r : Request) : Except Failure Selection := do
  let seeds ← g.resolve r.seeds
  match g.selectFrom? seeds r with
  | some selection => return selection
  | none => throw .outOfRange

end Graph

end CallVicinity
