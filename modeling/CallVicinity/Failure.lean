/-!
# Failures

Why a run stops without output. Every failure has a message and an exit code: 2 where no declaration
matched, 3 where the output could not be delivered, 1 otherwise.
-/

namespace CallVicinity

/-- The reasons to stop. -/
inductive Failure where
  /-- The command line asks for nothing. -/
  | usage (text : String)
  /-- The settings cannot be used. -/
  | config (reason : String)
  /-- The settings are no settings text at all; the reason depends on where reading stopped. -/
  | malformedConfig
  /-- The source text cannot be parsed. -/
  | parser (reason : String)
  /-- No declaration matches one of the tokens. -/
  | seeds (tokens : List String)
  /-- The output could not be delivered. -/
  | sink (name reason : String)
  /-- A file or the terminal could not be read or written. -/
  | io (reason : String)
  /-- An index is past the end of the graph. -/
  | outOfRange
deriving DecidableEq, Repr

namespace Failure

/-- The tokens as they are shown in a message. -/
def showTokens : List String → String
  | [] => "an empty seed list"
  | tokens => String.intercalate ", " (tokens.map fun t => "'" ++ t ++ "'")

/-- The text that is shown for a failure. -/
def message : Failure → String
  | .usage text => text
  | .config reason => "Configuration error: " ++ reason
  | .malformedConfig => "Configuration error: TOML parse error"
  | .parser reason => "Parser error: " ++ reason
  | .seeds tokens =>
    "No declaration matched " ++ showTokens tokens ++
      ". Retry with an exact node id or declaration name."
  | .sink name reason => "Output sink '" ++ name ++ "' failed: " ++ reason
  | .io reason => "IO error: " ++ reason
  | .outOfRange => "index out of range"

/-- The exit code of a run that stops with a failure. -/
def exitCode : Failure → Nat
  | .seeds _ => 2
  | .sink _ _ => 3
  | _ => 1

end Failure

end CallVicinity
