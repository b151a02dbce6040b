import CallVicinity.Text.Blank
import CallVicinity.Tree.Basic

/-!
# Listings of parse trees

A parser hands its tree over as a listing with one line for each node, in pre-order. A line holds the
depth, the byte range, the flags, the fields and the kind of the node, with a space between two of
them, for instance `2 9 10 1 name identifier`. Flags are the sum of 1 for a rule of the grammar, 2 for
a node that was made up and 4 for a syntax error; fields have commas between them, and a dash stands
for none.
-/

namespace CallVicinity

/-- A count in decimal digits. -/
def Row.count? (digits : List Char) : Option Nat :=
  if digits.isEmpty || !digits.all Char.isDigit then none
  else some (digits.foldl (fun n d => 10 * n + (d.toNat - 0x30)) 0)

/-- The fields of a node. -/
def Row.fields? (text : List Char) : Option (List Field) :=
  if text = ['-'] then some []
  else (Text.pieces (· == ',') text).mapM fun f => Field.ofName? (String.ofList f)

/-- The node that a line describes. A kind may hold spaces, so it is the rest of the line. -/
def Row.ofLine? (line : List Char) : Option Row := do
  match Text.pieces (· == ' ') line with
  | depth :: start :: stop :: flags :: fields :: kind =>
    let flags ← Row.count? flags
    return {
      depth := ← Row.count? depth
      label := {
        kind := Kind.ofName (String.ofList (Text.join [' '] kind))
        start := ← Row.count? start
        stop := ← Row.count? stop
        named := flags % 2 == 1
        missing := flags / 2 % 2 == 1
        faulty := flags / 4 % 2 == 1
        fields := ← Row.fields? fields } }
  | _ => none

/-- The tree that a listing describes. -/
def Node.ofListing? (listing : String) : Option Node := do
  let lines := (Text.pieces (· == '\n') listing.toList).filter fun l => !l.isEmpty
  Node.ofRows? (← lines.mapM Row.ofLine?)

end CallVicinity
