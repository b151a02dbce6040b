import CallVicinity.Draft.Basic

/-!
# Passes over a tree

Four passes fill a draft: one records the classes, one the functions, one links every declaration to
its owner and one adds the call edges. They can be run in any order and any number of times; the
usual order is `Pass.usual`.
-/

namespace CallVicinity

/-- The passes over a tree. -/
inductive Pass where
  | classes
  | functions
  | ownership
  | calls
deriving DecidableEq, Repr

/-- The order in which a graph is made. -/
def Pass.usual : List Pass := [.classes, .functions, .ownership, .calls]

/-- The name by which a call refers to what it calls: an identifier, the property of a member access
or the string of a subscript. -/
def Node.calleeKey? (source : List Char) (callee : Node) : Option (List Char) :=
  match callee.construct with
  | .identifier => some (callee.text source)
  | .member _ property => some (property.text source)
  | .subscript _ index => index.stringValue? source
  | _ => none

/-- The name that the call at a site refers to. -/
def Site.callKey? (source : List Char) (s : Site) : Option String :=
  match s.node.construct with
  | .call callee => (callee.calleeKey? source).map String.ofList
  | _ => none

namespace Draft

/-- Records every site that has a heading. -/
def recordAll (source : List Char) (heading? : Site → Option Heading) (sites : List Site)
    (d : Draft) : Draft :=
  sites.foldl (fun d s =>
    match heading? s with
    | some h => d.record source s h
    | none => d) d

/-- Records the classes among the sites. -/
def recordClasses (source : List Char) (sites : List Site) (d : Draft) : Draft :=
  d.recordAll source (·.classHeading? source) sites

/-- Records the functions among the sites that are declarations. -/
def recordFunctions (source : List Char) (sites : List Site) (d : Draft) : Draft :=
  d.recordAll source (·.functionHeading? source) sites

/-- Links every declaration to the one around it. -/
def linkOwners (d : Draft) : Draft :=
  { d with records := d.records.map fun r => { r with owner := d.enclosing? r.site.address } }

/-- The slots of the declarations with a name, ascending. -/
def slotsNamed (d : Draft) (name : String) : List Nat :=
  (d.records.toList.zipIdx.filter fun r => r.1.heading.name == name).map (·.2)

/-- The edges of the call at a site: from the declaration around it to every declaration with the
name that it refers to. -/
def edgesAt (d : Draft) (source : List Char) (s : Site) : List (Nat × Nat) :=
  match s.callKey? source with
  | none => []
  | some name =>
    match d.enclosing? s.address with
    | none => []
    | some caller => (d.slotsNamed name).map fun callee => (caller, callee)

/-- Whether the declaration in slot `caller` has slot `callee` among its calls. -/
def hasCall (d : Draft) (caller callee : Nat) : Bool :=
  d.records[caller]?.any fun r => callee ∈ r.calls

/-- Adds the callee of an edge to the calls of its caller. Only if it is new there, the caller is
added to the callers of the callee, and the edge is counted. -/
def addEdge (state : Draft × Nat) (e : Nat × Nat) : Draft × Nat :=
  let (d, added) := state
  if d.hasCall e.1 e.2 then state
  else
    let forward := d.records.modify e.1 fun r => { r with calls := r.calls.insert e.2 }
    let both := forward.modify e.2 fun r => { r with calledBy := r.calledBy.insert e.1 }
    ({ d with records := both }, added + 1)

/-- Adds the edges of all calls; the number is that of the edges that were new. -/
def linkCalls (source : List Char) (sites : List Site) (d : Draft) : Draft × Nat :=
  (sites.flatMap (d.edgesAt source)).foldl addEdge (d, 0)

/-- Runs one pass over the sites of a tree. -/
def run (source : List Char) (sites : List Site) (d : Draft) : Pass → Draft
  | .classes => d.recordClasses source sites
  | .functions => d.recordFunctions source sites
  | .ownership => d.linkOwners
  | .calls => (d.linkCalls source sites).1

/-- Runs passes one after the other. -/
def runAll (source : List Char) (sites : List Site) (d : Draft) (passes : List Pass) : Draft :=
  passes.foldl (run source sites) d

/-- The number of call edges that a pass reports to have added; the other passes report none. -/
def report? (source : List Char) (sites : List Site) (d : Draft) : Pass → Option Nat
  | .calls => some (d.linkCalls source sites).2
  | _ => none

end Draft

end CallVicinity
