import CallVicinity.CommandLine.Arguments
import CallVicinity.Host.Delivery
import CallVicinity.Host.Store
import CallVicinity.Prompt.Session

/-!
# Runs

A run first prepares a text and the sink it goes to, and then delivers it. Preparing reads files and
asks questions but changes nothing, so a run that stops there leaves everything as it was; a run
delivers to one sink at most.
-/

namespace CallVicinity

/-- A text on its way to a sink. -/
structure Parcel where
  sink : Sink
  text : String
deriving DecidableEq, Repr

/-- Why a run stops: a failure, and around it what the run was doing, the outermost first. -/
inductive Stop where
  | failure (f : Failure)
  | during (what : String) (cause : Stop)
deriving DecidableEq, Repr

namespace Stop

/-- An error in the chain of errors that is behind a stop. -/
inductive Link where
  | context (what : String)
  | failure (f : Failure)
  /-- What the system said. -/
  | system (reason : String)
deriving DecidableEq, Repr

namespace Link

/-- The text of an error in the chain. -/
def message : Link → String
  | .context what => what
  | .failure f => f.message
  | .system reason => reason

/-- The failure, if the error in the chain is one. -/
def failure? : Link → Option Failure
  | .failure f => some f
  | .context _ | .system _ => none

end Link

/-- The chain of errors, from the outermost to the one behind all others. -/
def chain : Stop → List Link
  | .during what cause => .context what :: cause.chain
  | .failure (.io reason) => [.failure (.io reason), .system reason]
  | .failure f => [.failure f]

/-- The failure that is found first in the chain. -/
def failure? (s : Stop) : Option Failure := s.chain.findSome? Link.failure?

/-- The line that reports a stop. -/
def line (s : Stop) : String :=
  match s.failure? with
  | some (.usage text) => text ++ "\n"
  | _ => "Error: " ++ String.intercalate ": " (s.chain.map Link.message) ++ "\n"

/-- The exit code of a run that stops. -/
def exitCode (s : Stop) : Nat := (s.failure?.map Failure.exitCode).getD 1

end Stop

namespace CommandLine

/-- What is shown where no file is named. -/
def usage : String := "Usage: callslice [OPTIONS] [FILE]"

/-- A result, which stops a run where it is a failure. -/
def orStop {α : Type} (x : Except Failure α) : Except Stop α := x.mapError .failure

/-- A result, with what was being done where it is a failure. -/
def doing {α : Type} (what : String) (x : Except Failure α) : Except Stop α :=
  (orStop x).mapError (.during what)

/-- Questions as a step of a run. -/
def asking {m : Type → Type} [Monad m] {α : Type} (d : ExceptT Failure m α) : ExceptT Stop m α :=
  ExceptT.mk (orStop <$> d.run)

/-- The sink that a session and the arguments ask for. -/
def sinkFor (a : Arguments) (settings : Settings) (session : Session) : Sink :=
  if session.clipboard then .clipboard settings.output.clipboardCommand
  else
    match a.output with
    | some path => .file path
    | none => .stdout

/-- The form of the document, which depends on where it goes. -/
def encodingFor (session : Session) : Encoding :=
  if session.clipboard then .literal session.pretty else .json session.pretty

/-- The settings of a run. -/
def settingsFor (files : Files) (a : Arguments) : Except Failure Settings := do
  let settings ← Settings.loadOrDefault files a.config
  match a.language with
  | some language => return { settings with parsing := { settings.parsing with language } }
  | none => return settings

/-- The settings and the analysis of a run. -/
def inspect (files : Files) (parse : Parser) (a : Arguments) : Except Stop (Settings × Analysis) :=
  match a.file with
  | none => .error (.failure (.usage usage))
  | some path => do
    let settings ← doing "Failed to load configuration" (settingsFor files a)
    let analysis ← doing ("Failed to analyze " ++ path)
      (Analysis.ofFile files parse settings.parsing path)
    return (settings, analysis)

/-- The text that a session asks for, with its sink. -/
def pack (a : Arguments) (settings : Settings) (analysis : Analysis) (session : Session) :
    Except Stop Parcel := do
  let document ← orStop (analysis.slice session.request session.options)
  return ⟨sinkFor a settings session, document.render (encodingFor session)⟩

/-- Prepares the text of a run and its sink. -/
def prepare {m : Type → Type} [Monad m] (ask : Prompter m) (files : Files) (parse : Parser)
    (a : Arguments) : ExceptT Stop m Parcel := do
  let (settings, analysis) ← ExceptT.mk (pure (inspect files parse a))
  let session ← asking (Session.gather ask settings a.seeds a.defaults)
  ExceptT.mk (pure (pack a settings analysis session))

/-- What a run leaves behind. -/
structure Outcome where
  exitCode : Nat
  stdout : String
  stderr : String
  files : Files
  /-- The programs that were started, with their arguments. -/
  started : List (String × List String)

/-- What is shown after a text was delivered. -/
def receipt (p : Parcel) : String :=
  match p.sink with
  | .clipboard _ => "Copied " ++ p.text.utf8ByteSize.repr ++ " bytes to clipboard\n"
  | _ => ""

/-- Runs a command line. -/
def run (host : Host) (parse : Parser) (a : Arguments) (stdin : List UInt8) : Outcome :=
  match (prepare Terminal.ask host.files parse a).run.run ⟨stdin, ""⟩ with
  | (.error stop, terminal) =>
    ⟨stop.exitCode, "", terminal.shown ++ stop.line, host.files, []⟩
  | (.ok parcel, terminal) =>
    let d := host.deliver parcel.sink parcel.text
    match d.result with
    | .ok () => ⟨0, d.stdout, terminal.shown ++ receipt parcel, d.files, d.started⟩
    | .error f =>
      let stop := Stop.failure f
      ⟨stop.exitCode, d.stdout, terminal.shown ++ stop.line, d.files, d.started⟩

end CommandLine

end CallVicinity
