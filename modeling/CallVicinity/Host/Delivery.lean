import CallVicinity.Host.Files

/-!
# Delivering a text

A text goes to standard output, to a file or to the clipboard. The clipboard is a program that reads
the text: the configured one, else the first that is found of those known to do this.
-/

namespace CallVicinity

/-- How a program ended. -/
inductive Status where
  | exited (code : Nat)
  | killed (signal : Nat)
deriving DecidableEq, Repr

namespace Status

/-- The names of the signals, beginning with number one. -/
def signalNames : List String := ["SIGHUP", "SIGINT", "SIGQUIT", "SIGILL", "SIGTRAP", "SIGABRT",
  "SIGBUS", "SIGFPE", "SIGKILL", "SIGUSR1", "SIGSEGV", "SIGUSR2", "SIGPIPE", "SIGALRM", "SIGTERM",
  "SIGSTKFLT", "SIGCHLD", "SIGCONT", "SIGSTOP", "SIGTSTP", "SIGTTIN", "SIGTTOU", "SIGURG", "SIGXCPU",
  "SIGXFSZ", "SIGVTALRM", "SIGPROF", "SIGWINCH", "SIGIO", "SIGPWR", "SIGSYS"]

/-- The text for the end of a program. -/
def text : Status → String
  | .exited code => "exit status: " ++ code.repr
  | .killed signal =>
    let name :=
      match signalNames[signal - 1]? with
      | some name => " (" ++ name ++ ")"
      | none => ""
    "signal: " ++ signal.repr ++ name

end Status

/-- What becomes of a text that is printed. -/
inductive Printing where
  | done
  /-- Not all of it could be printed: what arrived, and why no more did. -/
  | cut (arrived reason : String)
deriving DecidableEq, Repr

/-- What a run can use: the files, standard output, and the programs that are installed. -/
structure Host where
  files : Files
  /-- Where a program is found by its name alone. -/
  find? : String → Option String
  /-- Runs a program with its arguments and its input in a file tree, which it may change. -/
  launch : (program : String) → (arguments : List String) → (input : String) → Files →
    Except FileError (Status × Files)
  /-- Why a program that was started could not be given all of its input. -/
  refusal? : (program : String) → (arguments : List String) → (input : String) → Option String :=
    fun _ _ _ => none
  /-- What becomes of a text on standard output. -/
  print : (text : String) → Printing := fun _ => .done

/-- Where a text goes. -/
inductive Sink where
  | stdout
  | file (path : String)
  | clipboard (command : Option (List String))
deriving DecidableEq, Repr

/-- The word for a sink. -/
def Sink.name : Sink → String
  | .stdout => "stdout"
  | .file _ => "file"
  | .clipboard _ => "clipboard"

/-- What a delivery leaves behind. -/
structure Delivered where
  files : Files
  stdout : String
  /-- The programs that were started, with their arguments. -/
  started : List (String × List String)
  result : Except Failure Unit

namespace Clipboard

/-- The programs that take a text for the clipboard, with their arguments. -/
def helpers : List (String × List String) :=
  [("pbcopy", []), ("wl-copy", []), ("xclip", ["-selection", "clipboard"]),
    ("xsel", ["--clipboard", "--input"]), ("clip.exe", []), ("clip", [])]

/-- A failure of the clipboard. -/
def failure (reason : String) : Failure := .sink "clipboard" reason

/-- The first known program that is found, with its arguments. -/
def detect? (host : Host) : Option (String × List String) :=
  helpers.findSome? fun helper => (host.find? helper.1).map (·, helper.2)

/-- The program to use, with its arguments. -/
def command (host : Host) : Option (List String) → Except Failure (String × List String)
  | some [] => .error (failure "clipboard_command is empty")
  | some (program :: arguments) => .ok (program, arguments)
  | none =>
    match detect? host with
    | some found => .ok found
    | none =>
      .error (failure ("no clipboard helper found on PATH (tried " ++
        String.intercalate ", " (helpers.map (·.1)) ++ ")"))

/-- Starts a program with its arguments and its input. No NUL can be handed to a program in its name
or its arguments. -/
def start (host : Host) (program : String) (arguments : List String) (text : String) :
    Except FileError (Status × Files) :=
  if (program :: arguments).any fun word => word.toList.contains '\x00' then .error .nulInCommand
  else host.launch program arguments text host.files

/-- Whether a program that was started took a text: it has to read all of it and to end well. -/
def verdict (host : Host) (program : String) (arguments : List String) (text : String)
    (status : Status) : Except Failure Unit :=
  match host.refusal? program arguments text with
  | some reason => .error (failure reason)
  | none =>
    if status = .exited 0 then .ok ()
    else .error (failure (program ++ " exited with " ++ status.text))

/-- Hands a text to a program. -/
def copy (host : Host) (program : String) (arguments : List String) (text : String) : Delivered :=
  match start host program arguments text with
  | .error e => ⟨host.files, "", [], .error (failure (program ++ ": " ++ e.message))⟩
  | .ok (status, files) =>
    ⟨files, "", [(program, arguments)], verdict host program arguments text status⟩

end Clipboard

/-- Delivers a text to a sink. -/
def Host.deliver (host : Host) (sink : Sink) (text : String) : Delivered :=
  match sink with
  | .stdout =>
    match host.print text with
    | .done => ⟨host.files, text, [], .ok ()⟩
    | .cut arrived reason => ⟨host.files, arrived, [], .error (.sink "stdout" reason)⟩
  | .file path =>
    match host.files.write path text with
    | .ok files => ⟨files, "", [], .ok ()⟩
    | .error e => ⟨host.files, "", [], .error (.sink "file" (path ++ ": " ++ e.message))⟩
  | .clipboard configured =>
    match Clipboard.command host configured with
    | .error f => ⟨host.files, "", [], .error f⟩
    | .ok (program, arguments) => Clipboard.copy host program arguments text

end CallVicinity
