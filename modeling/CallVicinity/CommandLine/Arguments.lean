import CallVicinity.Dialect

/-!
# Arguments

The arguments of the command line. They are taken from left to right, and the first problem is
reported. A value that stands apart from its option is checked when the next argument is taken, so an
option that is not known is reported before a bad or missing value in front of it.
-/

namespace CallVicinity

/-- What the command line asks for. -/
structure Arguments where
  file : Option String := none
  config : Option String := none
  verbose : Bool := false
  seeds : Option String := none
  defaults : Bool := false
  output : Option String := none
  language : Option Dialect := none
deriving DecidableEq, Repr, Inhabited

/-- Why arguments are not taken; help and version are asked for on purpose. -/
inductive ArgumentError where
  | unknownArgument
  | invalidValue
  | argumentConflict
  | tooManyValues
  | displayHelp
  | displayVersion
deriving DecidableEq, Repr

namespace ArgumentError

/-- The word for an error. -/
def toName : ArgumentError → String
  | .unknownArgument => "UnknownArgument"
  | .invalidValue => "InvalidValue"
  | .argumentConflict => "ArgumentConflict"
  | .tooManyValues => "TooManyValues"
  | .displayHelp => "DisplayHelp"
  | .displayVersion => "DisplayVersion"

/-- Whether it is a mistake and not an answer. -/
def isMistake : ArgumentError → Bool
  | .displayHelp => false
  | .displayVersion => false
  | _ => true

/-- The exit code of a run that ends with it. -/
def exitCode (e : ArgumentError) : Nat := if e.isMistake then 1 else 0

end ArgumentError

namespace Arguments

/-- Options that stand alone. -/
inductive Switch where
  | verbose
  | defaults
  | help
  | version

/-- What takes a value. -/
inductive Slot where
  | file
  | config
  | seeds
  | output
  | language

/-- An option. -/
inductive Flag where
  | switch (s : Switch)
  | slot (s : Slot)

/-- The option with a long name. -/
def Flag.ofLong? : String → Option Flag
  | "config" => some (.slot .config)
  | "verbose" => some (.switch .verbose)
  | "seeds" => some (.slot .seeds)
  | "defaults" => some (.switch .defaults)
  | "output" => some (.slot .output)
  | "language" => some (.slot .language)
  | "help" => some (.switch .help)
  | "version" => some (.switch .version)
  | _ => none

/-- The option with a one-letter name. -/
def Flag.ofShort? : Char → Option Flag
  | 'c' => some (.slot .config)
  | 'v' => some (.switch .verbose)
  | 'y' => some (.switch .defaults)
  | 'o' => some (.slot .output)
  | 'h' => some (.switch .help)
  | 'V' => some (.switch .version)
  | _ => none

/-- Sets a path that was not set before. -/
def setPath (old : Option String) (value : String) : Except ArgumentError String :=
  if old.isSome then .error .argumentConflict
  else if value.isEmpty then .error .invalidValue
  else .ok value

/-- Sets what takes a value. -/
def set (a : Arguments) (slot : Slot) (value : String) : Except ArgumentError Arguments := do
  match slot with
  | .file => return { a with file := some (← setPath a.file value) }
  | .config => return { a with config := some (← setPath a.config value) }
  | .output => return { a with output := some (← setPath a.output value) }
  | .seeds =>
    if a.seeds.isSome then throw .argumentConflict
    return { a with seeds := some value }
  | .language =>
    if a.language.isSome then throw .argumentConflict
    match Dialect.ofName? value with
    | some d => return { a with language := some d }
    | none => throw .invalidValue

/-- Turns an option on. -/
def turnOn (a : Arguments) : Switch → Except ArgumentError Arguments
  | .verbose => if a.verbose then .error .argumentConflict else .ok { a with verbose := true }
  | .defaults => if a.defaults then .error .argumentConflict else .ok { a with defaults := true }
  | .help => .error .displayHelp
  | .version => .error .displayVersion

/-- What was taken so far. -/
structure Taken where
  result : Arguments
  /-- What a value was given for last, and that value unless it is still to come. -/
  pending : Option (Slot × Option String)
  /-- The file was named. -/
  hasFile : Bool
  /-- No more options follow. -/
  onlyFiles : Bool

namespace Taken

/-- Checks and sets the pending value. -/
def settle (t : Taken) : Except ArgumentError Taken :=
  match t.pending with
  | none => .ok t
  | some (_, none) => .error .invalidValue
  | some (slot, some value) => do
    return { t with result := ← t.result.set slot value, pending := none }

/-- Takes an option that stands alone. -/
def takeSwitch (t : Taken) (s : Switch) : Except ArgumentError Taken := do
  let t ← t.settle
  return { t with result := ← t.result.turnOn s }

/-- Takes an option with its value, which may be still to come. -/
def takeSlot (t : Taken) (s : Slot) (value : Option String) : Except ArgumentError Taken := do
  let t ← t.settle
  match value with
  | some v => return { t with result := ← t.result.set s v }
  | none => return { t with pending := some (s, none) }

/-- Takes an argument that starts with two dashes, given what follows them. -/
def takeLong (t : Taken) (rest : List Char) : Except ArgumentError Taken :=
  let name := rest.takeWhile (· != '=')
  let value : Option String :=
    match rest.drop name.length with
    | [] => none
    | _ :: v => some (String.ofList v)
  match Flag.ofLong? (String.ofList name) with
  | none => .error .unknownArgument
  | some (.slot s) => t.takeSlot s value
  | some (.switch s) => if value.isSome then .error .tooManyValues else t.takeSwitch s

/-- Takes one-letter options that stand together; after one that takes a value, the rest is its
value. -/
def takeShort : List Char → Taken → Except ArgumentError Taken
  | [], t => .ok t
  | c :: cs, t =>
    match Flag.ofShort? c with
    | none => .error .unknownArgument
    | some (.switch s) => (t.takeSwitch s).bind (takeShort cs)
    | some (.slot s) =>
      match cs with
      | [] => t.takeSlot s none
      | '=' :: v => t.takeSlot s (some (String.ofList v))
      | v => t.takeSlot s (some (String.ofList v))

/-- Takes the name of a file. -/
def takeFile (t : Taken) (value : String) : Except ArgumentError Taken :=
  if t.hasFile then .error .unknownArgument
  else do
    let t ← t.settle
    return { t with pending := some (.file, some value), hasFile := true }

/-- Takes an argument that is no option: the value that is still to come, or the name of a file. -/
def takeValue (t : Taken) (value : String) : Except ArgumentError Taken :=
  match t.pending with
  | some (slot, none) =>
    if t.onlyFiles then t.takeFile value
    else .ok { t with pending := some (slot, some value) }
  | _ => t.takeFile value

/-- Takes one argument. -/
def take (t : Taken) (argument : String) : Except ArgumentError Taken :=
  if t.onlyFiles then t.takeValue argument
  else
    match argument.toList with
    | ['-', '-'] => .ok { t with onlyFiles := true }
    | '-' :: '-' :: rest => t.takeLong rest
    | ['-'] => t.takeValue argument
    | '-' :: rest => takeShort rest t
    | _ => t.takeValue argument

end Taken

/-- Reads a command line. -/
def parse (arguments : List String) : Except ArgumentError Arguments := do
  let t ← arguments.foldlM Taken.take ⟨{}, none, false, false⟩
  return (← t.settle).result

end Arguments

end CallVicinity
