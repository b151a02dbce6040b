import CallVicinity.Analysis
import CallVicinity.Host.Files
import CallVicinity.Settings.Text

/-!
# Settings and sources in files

Settings are loaded from a file, saved to one, or looked for under their usual names. A source file
is read, checked for its size and parsed.
-/

namespace CallVicinity

/-- A result of a file operation, with its error as a failure. -/
def FileError.lift {α : Type} : Except FileError α → Except Failure α
  | .ok a => .ok a
  | .error e => .error (.io e.message)

namespace Settings

/-- The settings in the file at a path. -/
def load (fs : Files) (path : String) : Except Failure Settings := do
  parse (← FileError.lift (fs.readText path))

/-- The file tree after the settings were saved at a path. -/
def save (s : Settings) (fs : Files) (path : String) : Except Failure Files := do
  FileError.lift (fs.write path (← s.text))

/-- The files in which settings are looked for, in this order. -/
def usualFiles : List String := ["callslice.toml", ".callslice.toml"]

/-- The settings in the file at a path, which has to be there, else those in the first of the usual
files, else the defaults. -/
def loadOrDefault (fs : Files) : Option String → Except Failure Settings
  | some path =>
    if fs.pathExists path then load fs path
    else .error (.config ("configuration file " ++ path ++ " does not exist"))
  | none =>
    match usualFiles.find? fs.pathExists with
    | some path => load fs path
    | none => .ok {}

end Settings

/-- A parser: the tree of the text of a file in a dialect. -/
abbrev Parser := Dialect → (path text : String) → Option Node

/-- The analysis of the file at a path. -/
def Analysis.ofFile (fs : Files) (parse : Parser) (s : Settings.Parsing) (path : String) :
    Except Failure Analysis := do
  let text ← FileError.lift (fs.readText path)
  if s.maxFileSize < text.utf8ByteSize then
    throw (.parser ("File " ++ path ++ " exceeds maximum size limit of " ++
      s.maxFileSize.repr ++ " bytes"))
  let dialect := s.language.resolve path
  match parse dialect path text with
  | some tree => return .ofSource ⟨path, dialect, text, tree⟩
  | none => throw (.parser ("Failed to parse " ++ path ++ " as " ++ dialect.toName))

end CallVicinity
