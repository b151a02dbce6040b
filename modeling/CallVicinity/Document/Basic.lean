import CallVicinity.Declaration.Naming
import CallVicinity.Document.Options
import CallVicinity.Json.Literal

/-!
# Documents

A document shows a part of a call graph: what it was cut out of, some counts and the outline of the
declarations, each nested in its owner. Its text is JSON or an exported literal.
-/

namespace CallVicinity

/-- How much is shown of a declaration. -/
inductive Detail where
  | full
  | context
  | ancestor
deriving DecidableEq, Repr

/-- The word for a level of detail. -/
def Detail.toName : Detail → String
  | .full => "full"
  | .context => "context"
  | .ancestor => "ancestor"

/-- What is shown of one declaration by itself. -/
structure Facts where
  id : Option String
  name : Option String
  kind : Option DeclKind
  detail : Detail
  params : Option String
  startLine : Option Nat
  endLine : Option Nat
  source : Option String
  calls : Option (List String)
  calledBy : Option (List String)
deriving DecidableEq, Repr

/-- What is shown of a declaration and of those inside it. -/
inductive Outline where
  | mk (facts : Facts) (children : Option (List Outline)) (childCount : Option Nat)

namespace Outline

/-- What is shown of the declaration by itself. -/
def facts : Outline → Facts
  | .mk f _ _ => f

/-- The outlines of the declarations inside, where they are shown. -/
def children : Outline → Option (List Outline)
  | .mk _ cs _ => cs

/-- The number of declarations inside, where it is shown instead. -/
def childCount : Outline → Option Nat
  | .mk _ _ n => n

end Outline

/-- The counts in a document. -/
structure Document.Stats where
  declarations : Nat
  edges : Nat
  included : Nat
  fullDetail : Nat
deriving DecidableEq, Repr

/-- A part of the call graph of a file. -/
structure Document where
  file : String
  language : String
  sourceDigest : String
  /-- The ids of the declarations around which the part was cut out. -/
  seeds : List String
  fullRadius : Nat
  contextRadius : Nat
  stats : Document.Stats
  nodes : List Outline

/-! ### Documents as JSON -/

/-- A field that is there only if it has a value. -/
def Json.optional {α : Type} (key : String) (write : α → Json) : Option α → List (String × Json)
  | none => []
  | some a => [(key, write a)]

/-- A count as JSON. -/
def Json.ofNat (n : Nat) : Json := .int n

/-- A list of strings as JSON. -/
def Json.ofStrings (ss : List String) : Json := .arr (ss.map .str)

/-- The fields of what is shown of a declaration by itself. -/
def Facts.fields (f : Facts) : List (String × Json) :=
  Json.optional "id" .str f.id ++
  Json.optional "name" .str f.name ++
  Json.optional "kind" (fun k => .str k.tag) f.kind ++
  [("detail", .str f.detail.toName)] ++
  Json.optional "params" .str f.params ++
  Json.optional "startLine" Json.ofNat f.startLine ++
  Json.optional "endLine" Json.ofNat f.endLine ++
  Json.optional "source" .str f.source ++
  Json.optional "calls" Json.ofStrings f.calls ++
  Json.optional "calledBy" Json.ofStrings f.calledBy

mutual

/-- An outline as JSON. -/
def Outline.toJson : Outline → Json
  | .mk facts children childCount =>
    .obj (facts.fields ++ Outline.childrenField children ++
      Json.optional "childCount" Json.ofNat childCount)

/-- The field of the outlines inside another one. -/
def Outline.childrenField : Option (List Outline) → List (String × Json)
  | none => []
  | some os => [("children", .arr (Outline.listToJson os))]

/-- Outlines as a list of JSON values. -/
def Outline.listToJson : List Outline → List Json
  | [] => []
  | o :: os => o.toJson :: Outline.listToJson os

end

/-- The counts of a document as JSON. -/
def Document.Stats.toJson (s : Document.Stats) : Json :=
  .obj [("declarations", Json.ofNat s.declarations), ("edges", Json.ofNat s.edges),
    ("included", Json.ofNat s.included), ("fullDetail", Json.ofNat s.fullDetail)]

/-- A document as JSON. -/
def Document.toJson (d : Document) : Json :=
  .obj [("file", .str d.file), ("language", .str d.language),
    ("sourceSha256", .str d.sourceDigest), ("seeds", Json.ofStrings d.seeds),
    ("fullRadius", Json.ofNat d.fullRadius), ("contextRadius", Json.ofNat d.contextRadius),
    ("stats", d.stats.toJson), ("nodes", .arr (Outline.listToJson d.nodes))]

/-- The forms of text that a document can have. -/
inductive Encoding where
  | json (pretty : Bool)
  | literal (pretty : Bool)
deriving DecidableEq, Repr

/-- The text of a document, which ends with a line feed. -/
def Document.render (d : Document) : Encoding → String
  | .json pretty => d.toJson.text pretty ++ "\n"
  | .literal pretty => d.toJson.exported pretty ++ "\n"

end CallVicinity
