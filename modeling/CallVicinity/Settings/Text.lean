import CallVicinity.Failure
import CallVicinity.Settings.Basic
import CallVicinity.Toml.Reader
import CallVicinity.Toml.Writer

/-!
# Settings as text

Settings are kept as TOML. A section is a table, or an array of the values of its fields in order;
what is not given takes its default, and keys that mean nothing are ignored.
-/

namespace CallVicinity

namespace Toml

/-- The value of a field: its default where it is not given, `none` where it has another type. -/
def fieldOr? {α : Type} (read : Toml → Option α) (default : α) : Option Toml → Option α
  | none => some default
  | some v => read v

/-- A count. -/
def nat? : Toml → Option Nat
  | .integer n => if 0 ≤ n then some n.toNat else none
  | _ => none

/-- A truth value. -/
def bool? : Toml → Option Bool
  | .boolean b => some b
  | _ => none

/-- A text. -/
def text? : Toml → Option String
  | .string s => some s
  | _ => none

/-- A list. -/
def list? {α : Type} (read : Toml → Option α) : Toml → Option (List α)
  | .array items => items.mapM read
  | _ => none

/-- One of some words: the word itself, or a table in which the word is the only key and has nothing
as its value. -/
def choice? {α : Type} (ofName? : String → Option α) : Toml → Option α
  | .string s => ofName? s
  | .table [(key, v)] => if v.isVoid then ofName? key else none
  | _ => none

/-- The values of the fields with the given names in a section. A point in time counts as a table
with none of the names. -/
def section? (names : List String) : Option Toml → Option (List (Option Toml))
  | none => some (names.map fun _ => none)
  | some .moment => some (names.map fun _ => none)
  | some (.table entries) => some (names.map fun name => entries.lookup name)
  | some (.array items) => some ((List.range names.length).map fun i => items[i]?)
  | some _ => none

end Toml

namespace Settings

/-- The settings of how files are read. -/
def Parsing.ofToml? (v : Option Toml) : Option Parsing := do
  match ← Toml.section? ["max_file_size", "language"] v with
  | [size, language] =>
    return {
      maxFileSize := ← Toml.fieldOr? Toml.nat? ({} : Parsing).maxFileSize size
      language := ← Toml.fieldOr? (Toml.choice? Dialect.ofName?) ({} : Parsing).language language }
  | _ => none

/-- The settings of how far a selection goes. -/
def Slicing.ofToml? (v : Option Toml) : Option Slicing := do
  match ← Toml.section? ["full_radius", "context_radius"] v with
  | [full, context] =>
    return {
      fullRadius := ← Toml.fieldOr? Toml.nat? ({} : Slicing).fullRadius full
      contextRadius := ← Toml.fieldOr? Toml.nat? ({} : Slicing).contextRadius context }
  | _ => none

/-- The settings of how a document is written. -/
def Output.ofToml? (v : Option Toml) : Option Output := do
  let initial : Output := {}
  match ← Toml.section? ["include_children", "include_child_count", "ref_mode", "pretty",
      "clipboard", "structural_fields", "clipboard_command"] v with
  | [children, count, mode, pretty, clipboard, fields, command] =>
    return {
      includeChildren := ← Toml.fieldOr? Toml.bool? initial.includeChildren children
      includeChildCount := ← Toml.fieldOr? Toml.bool? initial.includeChildCount count
      refMode := ← Toml.fieldOr? (Toml.choice? RefMode.ofName?) initial.refMode mode
      pretty := ← Toml.fieldOr? Toml.bool? initial.pretty pretty
      clipboard := ← Toml.fieldOr? Toml.bool? initial.clipboard clipboard
      structuralFields := ← Toml.fieldOr? (Toml.list? (Toml.choice? StructuralField.ofName?))
        initial.structuralFields fields
      clipboardCommand := ← Toml.fieldOr? (fun v => (Toml.list? Toml.text? v).map some)
        initial.clipboardCommand command }
  | _ => none

/-- The settings in a table. -/
def ofToml? (v : Toml) : Option Settings := do
  match ← Toml.section? ["parsing", "slicing", "output"] (some v) with
  | [parsing, slicing, output] =>
    return {
      parsing := ← Parsing.ofToml? parsing
      slicing := ← Slicing.ofToml? slicing
      output := ← Output.ofToml? output }
  | _ => none

/-- The settings that a text holds. -/
def parse (text : String) : Except Failure Settings :=
  match (Toml.read? text).bind ofToml? with
  | some s => .ok s
  | none => .error .malformedConfig

/-- The counts among the settings. -/
def counts (s : Settings) : List Nat :=
  [s.parsing.maxFileSize, s.slicing.fullRadius, s.slicing.contextRadius]

/-- The lines of all settings. -/
def lines (s : Settings) : List Char :=
  Toml.headerLine "parsing" ++
  Toml.entryLine "max_file_size" s.parsing.maxFileSize.repr.toList ++
  Toml.entryLine "language" (Toml.stringText s.parsing.language.toName) ++
  '\n' :: Toml.headerLine "slicing" ++
  Toml.entryLine "full_radius" s.slicing.fullRadius.repr.toList ++
  Toml.entryLine "context_radius" s.slicing.contextRadius.repr.toList ++
  '\n' :: Toml.headerLine "output" ++
  Toml.entryLine "include_children" (Toml.boolText s.output.includeChildren) ++
  Toml.entryLine "include_child_count" (Toml.boolText s.output.includeChildCount) ++
  Toml.entryLine "ref_mode" (Toml.stringText s.output.refMode.toName) ++
  Toml.entryLine "pretty" (Toml.boolText s.output.pretty) ++
  Toml.entryLine "clipboard" (Toml.boolText s.output.clipboard) ++
  Toml.entryLine "structural_fields"
    (Toml.arrayText (s.output.structuralFields.map StructuralField.toName)) ++
  match s.output.clipboardCommand with
  | none => []
  | some command => Toml.entryLine "clipboard_command" (Toml.arrayText command)

/-- The text of all settings; a count that does not fit in 63 bits cannot be written. -/
def text (s : Settings) : Except Failure String :=
  if s.counts.all (· < 0x8000000000000000) then .ok (String.ofList s.lines)
  else .error (.config "out-of-range value for u64 type")

end Settings

end CallVicinity
