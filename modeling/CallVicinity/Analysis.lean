import CallVicinity.Dialect
import CallVicinity.Digest
import CallVicinity.Document.Projection
import CallVicinity.Graph.Freeze

/-!
# Analyses

An analysis is a source text with its parse tree and its call graph. Any number of documents can be
cut out of it.
-/

namespace CallVicinity

/-- A source text with its parse tree. -/
structure Source where
  path : String
  /-- The dialect that the text was parsed in, never `auto`. -/
  dialect : Dialect
  text : String
  tree : Node

namespace Source

/-- The digest of the text. -/
def digest (s : Source) : String :=
  Digest.hexDigest s.text.toUTF8.toList

/-- Whether the parser met a syntax error. -/
def hasErrors (s : Source) : Bool := s.tree.label.faulty

/-- What a document says of where it was taken from. -/
def origin (s : Source) : Graph.Origin := ⟨s.path, s.dialect.toName, s.digest⟩

end Source

/-- A source text and its call graph. -/
structure Analysis where
  source : Source
  graph : Graph

namespace Analysis

/-- The analysis of a source text. -/
def ofSource (s : Source) : Analysis := ⟨s, Graph.build s.text.toList s.tree⟩

/-- The document of a selection of the graph. -/
def document (a : Analysis) (s : Selection) (o : Options) : Except Failure Document :=
  match a.graph.document? a.source.origin s o with
  | some d => .ok d
  | none => .error .outOfRange

/-- The document that a request asks for. -/
def slice (a : Analysis) (r : Request) (o : Options) : Except Failure Document := do
  a.document (← a.graph.select r) o

end Analysis

end CallVicinity
