import CallVicinity.Prompt.Terminal
import CallVicinity.Selection.Basic
import CallVicinity.Settings.Basic

/-!
# Sessions

What one run is to do: the request and the form of the document. `Session.gather` asks for it with
the settings as defaults; an answer that makes no sense counts as the default.
-/

namespace CallVicinity

/-- What one run is to do. -/
structure Session where
  request : Request
  options : Options
  pretty : Bool
  clipboard : Bool
deriving DecidableEq, Repr

namespace Session

/-- Every radius is below this: a number of 64 bits. -/
def radiusLimit : Nat := 0x10000000000000000

/-- A radius as it is typed: digits, with a plus sign before them or not. -/
def radius? (text : String) : Option Nat :=
  let digits :=
    match text.toList with
    | '+' :: cs => cs
    | cs => cs
  if digits.isEmpty || !digits.all Char.isDigit then none
  else
    let n := digits.foldl (fun n d => 10 * n + (d.toNat - 0x30)) 0
    if n < radiusLimit then some n else none

/-- A yes or no as it is typed. -/
def yesNo? (text : String) : Option Bool :=
  match RefMode.typed text with
  | "y" => some true
  | "yes" => some true
  | "true" => some true
  | "1" => some true
  | "n" => some false
  | "no" => some false
  | "false" => some false
  | "0" => some false
  | _ => none

/-- The word for a truth value. -/
def yesNo (b : Bool) : String := if b then "yes" else "no"

section

variable {m : Type → Type} [Monad m]

/-- Asks for a radius. -/
def askRadius (ask : Prompter m) (question : String) (default : Nat) : ExceptT Failure m Nat := do
  return (radius? (← ask question (some default.repr))).getD default

/-- Asks for yes or no. -/
def askYesNo (ask : Prompter m) (question : String) (default : Bool) :
    ExceptT Failure m Bool := do
  return (yesNo? (← ask question (some (yesNo default)))).getD default

/-- Asks how declarations are referred to. -/
def askRefMode (ask : Prompter m) (default : RefMode) : ExceptT Failure m RefMode := do
  let answer ← ask "Call reference display (id | name | both)" (some default.toName)
  return (RefMode.ofName? (RefMode.typed answer)).getD default

/-- Asks for all but the seeds. -/
def gatherOptions (ask : Prompter m) (s : Settings) (seeds : List String) :
    ExceptT Failure m Session := do
  let full ← askRadius ask "Full-detail radius" s.slicing.fullRadius
  let context ← askRadius ask "Structural-context radius (at least the full-detail radius)"
    s.slicing.contextRadius
  let children ← askYesNo ask "Include children in output tree?" s.output.includeChildren
  let count ←
    if children then pure s.output.includeChildCount
    else askYesNo ask "Include a child count instead?" s.output.includeChildCount
  let mode ← askRefMode ask s.output.refMode
  let pretty ← askYesNo ask "Pretty-print the JSON output?" s.output.pretty
  let clipboard ← askYesNo ask "Copy the output to the clipboard instead of stdout?"
    s.output.clipboard
  return {
    request := ⟨seeds, full, max context full⟩
    options := {
      includeChildren := children
      includeChildCount := count
      refMode := mode
      structuralFields := s.output.structuralFields }
    pretty
    clipboard }

/-- Asks for what was not given: the seeds, unless they are preset, and the rest, unless the
defaults are accepted. -/
def gather (ask : Prompter m) (s : Settings) (preset : Option String) (acceptDefaults : Bool) :
    ExceptT Failure m Session := do
  let typed ←
    match preset with
    | some seeds => pure seeds
    | none => ask "Seed declaration(s) (id, name or name fragment; comma-separated)" none
  let seeds := Seeds.parseList typed
  if seeds.isEmpty then throw (.seeds [])
  gatherOptions (if acceptDefaults then Prompter.acceptDefault else ask) s seeds

end

end Session

end CallVicinity
