import CallVicinity.Graph.Basic

/-!
# Reaching along calls

`Graph.reach?` finds the declarations within a number of steps of a set, where a step follows a call
edge in either direction. The search goes in rounds: round `d` holds what is exactly `d` steps away.
`Graph.closure?` adds the owners of a set of declarations.
-/

namespace CallVicinity

/-- Declarations with their distance from the start, by ascending index. -/
abbrev Distances := List (Nat × Nat)

namespace Distances

/-- The declarations within a distance. -/
def within (ds : Distances) (radius : Nat) : IndexSet :=
  IndexSet.ofList ((ds.filter fun d => d.2 ≤ radius).map (·.1))

/-- All declarations that were reached. -/
def reached (ds : Distances) : IndexSet :=
  IndexSet.ofList (ds.map (·.1))

end Distances

namespace Graph

/-- What is one step from the frontier and was not seen before. -/
def beyond? (g : Graph) (seen frontier : IndexSet) : Option IndexSet := do
  let near ← frontier.toList.mapM g.neighbors?
  return (near.foldr IndexSet.union ∅).filter fun i => !decide (i ∈ seen)

/-- The rounds of the search, beginning with a frontier at a distance: `radius` more steps are taken
from it. -/
def rounds? (g : Graph) : Nat → IndexSet → IndexSet → Nat → Option Distances
  | 0, _, frontier, distance => some (frontier.toList.map (·, distance))
  | radius + 1, seen, frontier, distance =>
    if frontier.isEmpty then some []
    else do
      let next ← g.beyond? seen frontier
      let later ← g.rounds? radius (seen.union next) next (distance + 1)
      return frontier.toList.map (·, distance) ++ later

/-- The declarations within `radius` steps of the seeds; `none` where a declaration from which a
step is taken is past the end. -/
def reach? (g : Graph) (seeds : IndexSet) (radius : Nat) : Option Distances :=
  (g.rounds? radius seeds seeds 0).map fun ds => ds.mergeSort fun a b => a.1 ≤ b.1

/-- Adds the owners from `next` on upwards, until one is met that is in the set already. -/
def climb? (g : Graph) : Nat → Option Nat → IndexSet → Option IndexSet
  | _, none, found => some found
  | 0, some _, found => some found
  | fuel + 1, some i, found =>
    if i ∈ found then some found
    else do
      let n ← g.node? i
      g.climb? fuel n.owner (found.insert i)

/-- The declarations of a set with all that is around them; `none` where an index is past the
end. -/
def closure? (g : Graph) (start : IndexSet) : Option IndexSet :=
  start.toList.foldlM (fun found i => do g.climb? g.size (← g.node? i).owner found) start

end Graph

end CallVicinity
