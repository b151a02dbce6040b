import CallVicinity.Dialect
import CallVicinity.Document.Options

/-!
# Settings

What can be configured, with the values that hold where nothing is said.
-/

namespace CallVicinity

/-- How source files are read. -/
structure Settings.Parsing where
  /-- The largest file that is read, in bytes. -/
  maxFileSize : Nat := 4194304
  language : Dialect := .auto
deriving DecidableEq, Repr, Inhabited

/-- How far a selection goes. -/
structure Settings.Slicing where
  fullRadius : Nat := 1
  contextRadius : Nat := 2
deriving DecidableEq, Repr, Inhabited

/-- How a document is written and where it goes. -/
structure Settings.Output where
  includeChildren : Bool := true
  includeChildCount : Bool := true
  refMode : RefMode := .name
  pretty : Bool := true
  clipboard : Bool := false
  structuralFields : List StructuralField := StructuralField.defaults
  /-- The program that takes the text for the clipboard, with its arguments. -/
  clipboardCommand : Option (List String) := none
deriving DecidableEq, Repr, Inhabited

/-- All settings. -/
structure Settings where
  parsing : Settings.Parsing := {}
  slicing : Settings.Slicing := {}
  output : Settings.Output := {}
deriving DecidableEq, Repr, Inhabited

end CallVicinity
