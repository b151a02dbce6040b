import CallVicinity.Failure
import CallVicinity.Text.Blank

/-!
# Files

A file tree as a value: its directories, and its files with their bytes, each by the names on the
way to it from the working directory, and each with what a run may do there. Paths are resolved as
on Linux: every name but the last has to be a directory, a dot stays and two dots go up, and every
directory in which a name is looked up has to be open to the run. A way that starts at the root of
the machine begins with the name `/`, and one that starts above the working directory with the name
`..` for each level.
-/

namespace CallVicinity

/-- Why a file could not be used. -/
inductive FileError where
  | notFound
  | isDirectory
  | notDirectory
  | denied
  | notProgram
  | nameTooLong
  | nulInName
  | nulInCommand
  | notText
deriving DecidableEq, Repr

/-- The text of an error, as the system gives it. -/
def FileError.message : FileError → String
  | .notFound => "No such file or directory (os error 2)"
  | .isDirectory => "Is a directory (os error 21)"
  | .notDirectory => "Not a directory (os error 20)"
  | .denied => "Permission denied (os error 13)"
  | .notProgram => "Exec format error (os error 8)"
  | .nameTooLong => "File name too long (os error 36)"
  | .nulInName => "file name contained an unexpected NUL byte"
  | .nulInCommand => "nul byte found in provided data"
  | .notText => "stream did not contain valid UTF-8"

/-- The names on the way to a file or directory. -/
abbrev Names := List String

/-- What a run may do with a file: nothing, read it, or read and write it. In a directory, looking
up a name is reading, and making a file is writing. -/
inductive Access where
  | none
  | readOnly
  | full
deriving DecidableEq, Repr

namespace Access

def canRead : Access → Bool
  | .none => false
  | .readOnly | .full => true

def canWrite : Access → Bool
  | .none | .readOnly => false
  | .full => true

end Access

/-- A file. -/
structure File where
  bytes : ByteArray
  access : Access := .full

/-- A file tree. -/
structure Files where
  directories : List (Names × Access)
  contents : List (Names × File)

namespace Files

/-- What a path leads to. -/
inductive Spot where
  | directory (names : Names)
  | file (names : Names) (file : File)
  /-- Nothing, but a file has room there. -/
  | vacant (names : Names)

/-- Whether a way leads to the working directory or to one above it. -/
def isAbove (names : Names) : Bool := names.all (· == "..")

/-- Whether there is a directory. -/
def isDirectory (fs : Files) (names : Names) : Bool :=
  isAbove names || names == ["/"] || fs.directories.any (·.1 == names)

/-- What a run may do in a directory. -/
def directoryAccess (fs : Files) (names : Names) : Access :=
  (fs.directories.lookup names).getD .full

/-- The file that a way leads to. -/
def get? (fs : Files) (names : Names) : Option File := fs.contents.lookup names

/-- The tree with the bytes of a file replaced, or with one more file. -/
def set (fs : Files) (names : Names) (bytes : ByteArray) : Files :=
  if (fs.get? names).isSome then
    { fs with contents := fs.contents.map fun p =>
        if p.1 == names then (names, { p.2 with bytes }) else p }
  else { fs with contents := fs.contents ++ [(names, { bytes })] }

/-- The way to the directory around a directory; the root is around itself. -/
def up (here : Names) : Names :=
  if isAbove here then here ++ [".."]
  else if here = ["/"] then here
  else here.dropLast

/-- A name has at most 255 bytes. -/
def isLongName (name : String) : Bool := 255 < name.utf8ByteSize

/-- The directory that one name leads to. -/
def enter (fs : Files) (here : Names) (name : String) : Except FileError Names :=
  if !(fs.directoryAccess here).canRead then .error .denied
  else if name = "." then .ok here
  else if name = ".." then .ok (up here)
  else if isLongName name then .error .nameTooLong
  else
    let there := here ++ [name]
    if fs.isDirectory there then .ok there
    else if (fs.get? there).isSome then .error .notDirectory
    else .error .notFound

/-- The names in a path. -/
def namesOf (path : String) : Names :=
  ((Text.pieces (· == '/') path.toList).filter fun n => !n.isEmpty).map String.ofList

/-- The directory where a path starts. -/
def startOf (path : String) : Names :=
  if path.toList.head? = some '/' then ["/"] else []

/-- Where a way goes by one more name, where all on it are directories. -/
def step (here : Names) (name : String) : Names :=
  if name = "." then here else if name = ".." then up here else here ++ [name]

/-- The way that a path describes, where all on it are directories. -/
def wayOf (path : String) : Names := (namesOf path).foldl step (startOf path)

/-- The directories that are passed on the way that a path describes, from its start to the one that
holds its last name. -/
def passedOn (path : String) : List Names :=
  let names := namesOf path
  (List.range names.length).map fun n => (names.take n).foldl step (startOf path)

/-- Whether a path ends with a slash and so can only mean a directory. -/
def endsWithSlash (path : String) : Bool := path.toList.getLast? == some '/'

/-- A path has at most 4095 bytes. -/
def isLongPath (path : String) : Bool := 4095 < path.utf8ByteSize

/-- The directory in which the last name of a path is looked up. -/
def holder (fs : Files) (path : String) : Except FileError Names :=
  if path.toList.contains '\x00' then .error .nulInName
  else if path.isEmpty then .error .notFound
  else if isLongPath path then .error .nameTooLong
  else do
    let here ← (namesOf path).dropLast.foldlM fs.enter (startOf path)
    if (namesOf path).isEmpty || (fs.directoryAccess here).canRead then return here
    else throw .denied

/-- What a way leads to. -/
def spotAt (fs : Files) (there : Names) : Spot :=
  if fs.isDirectory there then .directory there
  else
    match fs.get? there with
    | some file => .file there file
    | none => .vacant there

/-- What a path leads to. -/
def locate (fs : Files) (path : String) : Except FileError Spot := do
  let here ← fs.holder path
  match (namesOf path).getLast? with
  | none => return .directory here
  | some last =>
    if last = "." ∨ last = ".." then return .directory (step here last)
    else if isLongName last then throw .nameTooLong
    else return fs.spotAt (here ++ [last])

/-- Whether a path leads to something. -/
def pathExists (fs : Files) (path : String) : Bool :=
  match fs.locate path with
  | .ok (.directory _) => true
  | .ok (.file _ _) => !endsWithSlash path
  | _ => false

/-- The bytes of the file at a path. -/
def read (fs : Files) (path : String) : Except FileError ByteArray :=
  match fs.locate path with
  | .error e => .error e
  | .ok (.directory names) =>
    if (fs.directoryAccess names).canRead then .error .isDirectory else .error .denied
  | .ok (.vacant _) => .error .notFound
  | .ok (.file _ file) =>
    if endsWithSlash path then .error .notDirectory
    else if file.access.canRead then .ok file.bytes
    else .error .denied

/-- The text of the file at a path. -/
def readText (fs : Files) (path : String) : Except FileError String := do
  match String.fromUTF8? (← fs.read path) with
  | some text => return text
  | none => throw .notText

/-- The tree after a text was written to a path. A path that ends with a slash is refused once its
last name would be looked up. A file that is there has to be open for writing, and so has the
directory in which a new one is made. -/
def write (fs : Files) (path : String) (text : String) : Except FileError Files := do
  let here ← fs.holder path
  if endsWithSlash path then throw .isDirectory
  match ← fs.locate path with
  | .directory _ => throw .isDirectory
  | .file names file =>
    if file.access.canWrite then return fs.set names text.toUTF8 else throw .denied
  | .vacant names =>
    if (fs.directoryAccess here).canWrite then return fs.set names text.toUTF8 else throw .denied

end Files

end CallVicinity
