/-!
# JSON values and their text

A JSON value with whole numbers only, whose objects keep the order of their fields. `Json.text` is
its usual text, on one line or over several lines with two spaces for each level.
-/

namespace CallVicinity

/-- A JSON value with whole numbers. -/
inductive Json where
  | null
  | bool (b : Bool)
  | int (n : Int)
  | str (s : String)
  | arr (items : List Json)
  | obj (fields : List (String × Json))
deriving Inhabited

namespace Json

/-- A digit of a number in base sixteen, in lower case. -/
def hexDigit (n : Nat) : Char :=
  if n < 10 then Char.ofNat (0x30 + n) else Char.ofNat (0x61 + (n - 10))

/-- How a character is written in a quoted string. -/
def escapeChar (c : Char) : List Char :=
  if c = '"' then ['\\', '"']
  else if c = '\\' then ['\\', '\\']
  else if c = '\n' then ['\\', 'n']
  else if c = '\r' then ['\\', 'r']
  else if c = '\t' then ['\\', 't']
  else if c = '\x08' then ['\\', 'b']
  else if c = '\x0c' then ['\\', 'f']
  else if c.toNat < 0x20 then
    ['\\', 'u', '0', '0', hexDigit (c.toNat / 16), hexDigit (c.toNat % 16)]
  else [c]

/-- A string in double quotes. -/
def quote (s : String) : List Char :=
  '"' :: (s.toList.flatMap escapeChar ++ ['"'])

/-- The break before an item or a closing bracket at a depth; nothing where all is on one line. -/
def lineBreak (pretty : Bool) (depth : Nat) : List Char :=
  if pretty then '\n' :: List.replicate (2 * depth) ' ' else []

/-- What stands between a key and its value. -/
def colon (pretty : Bool) : List Char :=
  if pretty then [':', ' '] else [':']

mutual

/-- The text of a value at a depth. -/
def textAt (pretty : Bool) (depth : Nat) : Json → List Char
  | .null => "null".toList
  | .bool true => "true".toList
  | .bool false => "false".toList
  | .int n => n.repr.toList
  | .str s => quote s
  | .arr items =>
    if items.isEmpty then ['[', ']']
    else '[' :: itemsText pretty (depth + 1) items ++ lineBreak pretty depth ++ [']']
  | .obj fields =>
    if fields.isEmpty then ['{', '}']
    else '{' :: fieldsText pretty (depth + 1) fields ++ lineBreak pretty depth ++ ['}']

/-- The items of a list at a depth, with commas between them. -/
def itemsText (pretty : Bool) (depth : Nat) : List Json → List Char
  | [] => []
  | v :: vs =>
    lineBreak pretty depth ++ textAt pretty depth v ++
      (if vs.isEmpty then [] else ',' :: itemsText pretty depth vs)

/-- The fields of an object at a depth, with commas between them. -/
def fieldsText (pretty : Bool) (depth : Nat) : List (String × Json) → List Char
  | [] => []
  | (k, v) :: fs =>
    lineBreak pretty depth ++ quote k ++ colon pretty ++ textAt pretty depth v ++
      (if fs.isEmpty then [] else ',' :: fieldsText pretty depth fs)

end

/-- The text of a value, on one line or over several. -/
def text (pretty : Bool) (v : Json) : String :=
  String.ofList (v.textAt pretty 0)

end Json

end CallVicinity
