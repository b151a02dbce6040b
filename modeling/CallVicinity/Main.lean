import CallVicinity.CommandLine.Run
import CallVicinity.Tree.Listing

/-!
# The command line

The thin layer around `CommandLine.prepare`: it reads the files that a run can need, asks its
questions on the terminal and delivers its text. The tree of a source file is read from the listing
beside it, which has the name of the file with the dialect and `tree` behind it. Programs cannot be
started from here, so a text for the clipboard is refused.
-/

namespace CallVicinity.CommandLine

/-- Adds the file at a path to a file tree. What is there and is no file is a directory. -/
def addFile (files : Files) (path : String) : IO Files := do
  let names := Files.wayOf path
  let passed : Files := { files with
    directories := files.directories ++ (Files.passedOn path).map (·, .full) }
  try
    let bytes ← IO.FS.readBinFile path
    return passed.set names bytes
  catch
    | .noFileOrDirectory .. => return files
    | .permissionDenied .. =>
      return { passed with contents := passed.contents ++ [(names, ⟨.empty, .none⟩)] }
    | _ => return { passed with directories := passed.directories ++ [(names, .full)] }

/-- The listing of the tree of a file in a dialect. -/
def listingPath (path : String) (dialect : Dialect) : String :=
  path ++ "." ++ dialect.toName ++ ".tree"

/-- The files that a run can need. -/
def neededFiles (a : Arguments) : List String :=
  let sources := a.file.toList.flatMap fun path =>
    path :: [Dialect.javascript, .typescript, .tsx].map (listingPath path)
  sources ++ a.config.toList ++ Settings.usualFiles

/-- Reads trees from the listings in a file tree. -/
def listedTree (files : Files) : Parser := fun dialect path _ =>
  (files.readText (listingPath path dialect)).toOption.bind Node.ofListing?

/-- Asks a question on the terminal. -/
def askTerminal (input output : IO.FS.Stream) : Prompter IO := fun question default =>
  ExceptT.mk do
    output.putStr (Terminal.prompt question default)
    output.flush
    try
      return .ok (Terminal.answer (← input.getLine) default)
    catch _ => return .error (.io FileError.notText.message)

/-- Delivers a text. -/
def deliver (p : Parcel) : IO (Except Failure Unit) := do
  match p.sink with
  | .stdout =>
    try
      IO.print p.text
      (← IO.getStdout).flush
      return .ok ()
    catch e => return .error (.sink p.sink.name (toString e))
  | .file path =>
    try
      IO.FS.writeFile path p.text
      return .ok ()
    catch e => return .error (.sink p.sink.name (path ++ ": " ++ toString e))
  | .clipboard _ => return .error (.sink p.sink.name "programs cannot be started")

/-- Runs a command line on the machine. -/
def execute (a : Arguments) : IO UInt32 := do
  let files ← (neededFiles a).foldlM addFile ⟨[], []⟩
  let ask := askTerminal (← IO.getStdin) (← IO.getStderr)
  match ← (prepare ask files (listedTree files) a).run with
  | .error stop =>
    IO.eprint stop.line
    return stop.exitCode.toUInt32
  | .ok parcel =>
    match ← deliver parcel with
    | .ok () =>
      IO.eprint (receipt parcel)
      return 0
    | .error f =>
      IO.eprint (Stop.failure f).line
      return (Stop.failure f).exitCode.toUInt32

end CallVicinity.CommandLine

open CallVicinity in
/-- Reads the arguments and runs the command line. -/
def main (arguments : List String) : IO UInt32 := do
  match Arguments.parse arguments with
  | .ok a => CommandLine.execute a
  | .error e =>
    if e.isMistake then IO.eprintln e.toName else IO.println CommandLine.usage
    return e.exitCode.toUInt32
