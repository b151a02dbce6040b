/-!
# Byte offsets in a text

Positions in a text are byte offsets into its UTF-8 form. `cut` takes the part between two offsets
and refuses offsets that are inside a character, out of order or past the end; `position` gives the
row and the byte column of an offset.
-/

namespace CallVicinity.Text

/-- The length of a text in UTF-8 bytes. -/
def byteSize : List Char → Nat
  | [] => 0
  | c :: cs => c.utf8Size + byteSize cs

/-- The text after its first `n` bytes; `none` where byte `n` is inside a character or past the
end. -/
def dropBytes : Nat → List Char → Option (List Char)
  | 0, cs => some cs
  | _ + 1, [] => none
  | n + 1, c :: cs => if c.utf8Size ≤ n + 1 then dropBytes (n + 1 - c.utf8Size) cs else none

/-- The first `n` bytes of a text; `none` where byte `n` is inside a character or past the end. -/
def takeBytes : Nat → List Char → Option (List Char)
  | 0, _ => some []
  | _ + 1, [] => none
  | n + 1, c :: cs =>
    if c.utf8Size ≤ n + 1 then (takeBytes (n + 1 - c.utf8Size) cs).map (c :: ·) else none

/-- The part of a text from byte `start` up to byte `stop`. -/
def cut (cs : List Char) (start stop : Nat) : Option (List Char) :=
  if start ≤ stop then (dropBytes start cs).bind (takeBytes (stop - start)) else none

/-- A place in a text: the number of line feeds before it and the bytes since the last one. -/
structure Position where
  row : Nat
  column : Nat
deriving DecidableEq, Repr

/-- The position `rest` bytes further, where `cs` is the text that follows `here`. -/
def Position.advance (here : Position) : List Char → Nat → Position
  | [], rest => { here with column := here.column + rest }
  | c :: cs, rest =>
    if rest = 0 then here
    else if c = '\n' then Position.advance ⟨here.row + 1, 0⟩ cs (rest - 1)
    else if rest < c.utf8Size then { here with column := here.column + rest }
    else Position.advance { here with column := here.column + c.utf8Size } cs (rest - c.utf8Size)

/-- The position of a byte offset. -/
def position (cs : List Char) (offset : Nat) : Position :=
  Position.advance ⟨0, 0⟩ cs offset

end CallVicinity.Text
