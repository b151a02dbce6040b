import CallVicinity.Host.Files
import CallVicinity.Text.Blank

/-!
# Questions on a terminal

A terminal is the bytes that are still to be read and the text that was shown. Every question shows
its prompt and reads one line; a line that is not a text makes its question fail, and the next
question reads the next line.
-/

namespace CallVicinity

/-- The state of a terminal. -/
structure Terminal where
  input : List UInt8
  shown : String

/-- A way to get an answer to a question that may have a default. -/
abbrev Prompter (m : Type → Type) :=
  (question : String) → (default : Option String) → ExceptT Failure m String

/-- Answers every question with its default and shows nothing. -/
def Prompter.acceptDefault {m : Type → Type} [Monad m] : Prompter m :=
  fun _ default => return default.getD ""

namespace Terminal

/-- The byte that ends a line. -/
def lineFeed : UInt8 := 10

/-- The text that asks a question. -/
def prompt (question : String) : Option String → String
  | some default => question ++ " [" ++ default ++ "]: "
  | none => question ++ ": "

/-- The bytes of the next line without its end; past the end of the input a line is empty. -/
def line (input : List UInt8) : List UInt8 := input.takeWhile (· != lineFeed)

/-- The bytes after the next line. -/
def afterLine (input : List UInt8) : List UInt8 := (input.dropWhile (· != lineFeed)).drop 1

/-- What a typed line answers: the line without the blanks around it, or the default where nothing
is left. -/
def answer (typed : String) (default : Option String) : String :=
  let text := Text.trim typed.toList
  if text.isEmpty then default.getD "" else String.ofList text

/-- Asks a question. What was shown stays shown where the answer is no text. -/
def ask : Prompter (StateM Terminal) := fun question default => do
  let t ← get
  set ({ input := afterLine t.input, shown := t.shown ++ prompt question default } : Terminal)
  match String.fromUTF8? ⟨(line t.input).toArray⟩ with
  | some typed => return answer typed default
  | none => throw (.io FileError.notText.message)

end Terminal

end CallVicinity
