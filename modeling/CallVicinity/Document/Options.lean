import CallVicinity.Text.Blank
import CallVicinity.Text.Case

/-!
# Options of a document

What a document shows of each declaration and how it refers to others.
-/

namespace CallVicinity

/-- How a declaration refers to another one. -/
inductive RefMode where
  | id
  | name
  | both
deriving DecidableEq, Repr, Inhabited

namespace RefMode

/-- The word for a mode. -/
def toName : RefMode → String
  | .id => "id"
  | .name => "name"
  | .both => "both"

/-- The mode with exactly this word. -/
def ofName? : String → Option RefMode
  | "id" => some .id
  | "name" => some .name
  | "both" => some .both
  | _ => none

/-- A word as a person types it: blanks around it and the case of letters do not matter. -/
def typed (text : String) : String :=
  String.ofList (Text.lowerAscii (Text.trim text.toList))

/-- The mode that a person typed, else what to tell them. -/
def parse (text : String) : Except String RefMode :=
  match ofName? (typed text) with
  | some mode => .ok mode
  | none =>
    .error ("unknown reference mode '" ++ typed text ++ "' (expected id, name or both)")

end RefMode

/-- What is shown of a declaration that is not shown in full. -/
inductive StructuralField where
  | id
  | name
  | kind
  | params
  | startLine
  | endLine
deriving DecidableEq, Repr

namespace StructuralField

/-- The word for a field. -/
def toName : StructuralField → String
  | .id => "id"
  | .name => "name"
  | .kind => "kind"
  | .params => "params"
  | .startLine => "startLine"
  | .endLine => "endLine"

/-- The field with exactly this word. -/
def ofName? : String → Option StructuralField
  | "id" => some .id
  | "name" => some .name
  | "kind" => some .kind
  | "params" => some .params
  | "startLine" => some .startLine
  | "endLine" => some .endLine
  | _ => none

/-- What is shown where nothing else is asked for. -/
def defaults : List StructuralField := [.id, .name, .kind, .startLine, .endLine]

end StructuralField

/-- What a document shows. -/
structure Options where
  includeChildren : Bool := true
  includeChildCount : Bool := true
  refMode : RefMode := .name
  structuralFields : List StructuralField := StructuralField.defaults
deriving DecidableEq, Repr, Inhabited

end CallVicinity
