import CallVicinity.Text.Blank
import CallVicinity.Tree.Construct

/-!
# Re-indented text

`Node.reindented?` writes the text of a node as if it stood at the left margin: the indentation of
its first line is taken off the later lines, blanks at line ends and carriage returns before line
feeds go. Lines that begin or end inside a string, template or comment of several lines keep what is
inside. A node with a syntax error has no such text.
-/

namespace CallVicinity

mutual

/-- The byte ranges of the strings, templates and comments at or below a node that hold a line
feed. -/
def Node.longLiterals (source : List Char) : Node → List (Nat × Nat)
  | .mk l cs =>
    match l.kind with
    | .templateString | .string | .comment =>
      if ((Node.mk l cs).text source).contains '\n' then [(l.start, l.stop)] else []
    | _ => Node.longLiteralsOfChildren source cs

/-- The byte ranges of the long literals in a list of trees. -/
def Node.longLiteralsOfChildren (source : List Char) : List Node → List (Nat × Nat)
  | [] => []
  | c :: cs => Node.longLiterals source c ++ Node.longLiteralsOfChildren source cs

end

namespace Reindent

/-- Whether a byte offset lies strictly inside one of the ranges. -/
def inside (ranges : List (Nat × Nat)) (offset : Nat) : Bool :=
  ranges.any fun r => r.1 < offset && offset < r.2

/-- A space or a tab. -/
def isIndent (c : Char) : Bool := c == ' ' || c == '\t'

/-- The text from the start of the line that holds a byte offset. -/
def lineAt (source : List Char) (offset : Nat) : List Char :=
  match Text.takeBytes offset source with
  | none => source
  | some before => source.drop (before.length - (before.reverse.takeWhile (· != '\n')).length)

/-- The spaces and tabs at the start of the line that holds a byte offset. -/
def indentAt (source : List Char) (offset : Nat) : List Char :=
  (lineAt source offset).takeWhile isIndent

/-- A line without the given indentation, or without any where its own is another one. -/
def unindent (indent line : List Char) : List Char :=
  (Text.stripStart? indent line).getD (line.dropWhile isIndent)

/-- One line, which starts at byte `start`. -/
def tidyLine (ranges : List (Nat × Nat)) (indent : List Char) (first : Bool) (start : Nat)
    (raw : List Char) : List Char :=
  let line := (Text.stripLast? '\r' raw).getD raw
  let line := if inside ranges (start + Text.byteSize raw) then line else Text.trimEnd line
  if first || inside ranges start then line else unindent indent line

/-- The lines of a text whose first line starts at byte `start`. -/
def tidyLines (ranges : List (Nat × Nat)) (indent : List Char) :
    Bool → Nat → List (List Char) → List (List Char)
  | _, _, [] => []
  | first, start, raw :: rest =>
    tidyLine ranges indent first start raw ::
      tidyLines ranges indent false (start + Text.byteSize raw + 1) rest

end Reindent

/-- The text of a node as if it stood at the left margin; `none` where the node holds a syntax
error, was made up by the parser or has no text. -/
def Node.reindented? (n : Node) (source : List Char) : Option (List Char) :=
  let text := n.text source
  if n.label.faulty || n.label.missing || text.isEmpty then none
  else
    let indent := Reindent.indentAt source n.label.start
    let lines := Text.pieces (· == '\n') text
    some (Text.join ['\n']
      (Reindent.tidyLines (n.longLiterals source) indent true n.label.start lines))

end CallVicinity
