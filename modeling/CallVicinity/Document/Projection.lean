import CallVicinity.Document.Basic
import CallVicinity.Graph.Forest
import CallVicinity.Selection.Basic

/-!
# Documents from selections

`Graph.document?` shows a selection: the ownership forest restricted to the included declarations,
each with the detail that the selection gives it. References to declarations that are not included
are left out. The result is `none` exactly where an index that has to be looked up is past the end.
-/

namespace CallVicinity

/-- The detail that a selection gives to a declaration. -/
def Selection.detail (s : Selection) (i : Nat) : Detail :=
  if i ∈ s.fullDetail then .full
  else if i ∈ s.context then .context
  else .ancestor

/-- How a declaration is referred to. -/
def Declaration.reference (mode : RefMode) (d : Declaration) : String :=
  let name := if d.name.isEmpty then Naming.anonymous else d.name
  match mode with
  | .id => d.id
  | .name => name
  | .both => name ++ " (" ++ d.id ++ ")"

/-- The facts of a declaration that is not shown in full. -/
def Declaration.outlineFacts (d : Declaration) (fields : List StructuralField) (detail : Detail) :
    Facts where
  id := if .id ∈ fields then some d.id else none
  name := if .name ∈ fields then some d.name else none
  kind := if .kind ∈ fields then some d.kind else none
  detail
  params := if .params ∈ fields then some d.params else none
  startLine := if .startLine ∈ fields then some d.span.startLine else none
  endLine := if .endLine ∈ fields then some d.span.endLine else none
  source := none
  calls := none
  calledBy := none

namespace Graph

/-- The references to the included ones of some declarations. -/
def references? (g : Graph) (s : Selection) (mode : RefMode) (targets : IndexSet) :
    Option (List String) :=
  (targets.toList.filter fun i => decide (i ∈ s.included)).mapM fun i =>
    (g.node? i).map (·.reference mode)

/-- What is shown of the declaration with index `i`. -/
def facts? (g : Graph) (s : Selection) (o : Options) (i : Nat) : Option Facts := do
  let d ← g.node? i
  match s.detail i with
  | .full =>
    let calls ← g.references? s o.refMode d.calls
    let calledBy ← g.references? s o.refMode d.calledBy
    return {
      id := some d.id
      name := some d.name
      kind := some d.kind
      detail := .full
      params := some d.params
      startLine := some d.span.startLine
      endLine := some d.span.endLine
      source := some d.shown
      calls := some calls
      calledBy := some calledBy }
  | detail => return d.outlineFacts o.structuralFields detail

mutual

/-- The outline of a tree of declarations. -/
def outline? (g : Graph) (s : Selection) (o : Options) : Tree → Option Outline
  | .node i children => do
    let facts ← g.facts? s o i
    if o.includeChildren then
      return .mk facts (some (← outlines? g s o children)) none
    else
      return .mk facts none (if o.includeChildCount then some children.length else none)

/-- The outlines of trees of declarations. -/
def outlines? (g : Graph) (s : Selection) (o : Options) : List Tree → Option (List Outline)
  | [] => some []
  | t :: ts => do
    let first ← outline? g s o t
    return first :: (← outlines? g s o ts)

end

/-- The outlines of all that a selection includes. -/
def project? (g : Graph) (s : Selection) (o : Options) : Option (List Outline) := do
  g.outlines? s o (Forest.restrict s.included (← g.forest?))

/-- Where a graph was taken from. -/
structure Origin where
  file : String
  language : String
  digest : String
deriving DecidableEq, Repr

/-- The document of a selection. -/
def document? (g : Graph) (origin : Origin) (s : Selection) (o : Options) : Option Document := do
  let seeds ← s.seeds.toList.mapM g.node?
  let nodes ← g.project? s o
  return {
    file := origin.file
    language := origin.language
    sourceDigest := origin.digest
    seeds := seeds.map (·.id)
    fullRadius := s.fullRadius
    contextRadius := s.contextRadius
    stats := {
      declarations := g.size
      edges := g.edgeCount
      included := s.included.size
      fullDetail := s.fullDetail.size }
    nodes }

end Graph

end CallVicinity
