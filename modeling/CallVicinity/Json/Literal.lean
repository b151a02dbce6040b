import CallVicinity.Json.Basic

/-!
# Values as exported literals

`Json.exported` writes a value as the default export of a JavaScript module. The layout is that of
JSON; keys that are identifiers stand without quotes, and a string directly under the key `source`
stands between backticks over as many lines as it has.
-/

namespace CallVicinity.Json

/-- A letter of the English alphabet, an underscore or a dollar sign. -/
def isIdentifierStart (c : Char) : Bool := c.isAlpha || c == '_' || c == '$'

/-- What may stand in an identifier after its first character. -/
def isIdentifierRest (c : Char) : Bool := c.isAlphanum || c == '_' || c == '$'

/-- Whether a key can stand without quotes. -/
def isIdentifier (key : List Char) : Bool :=
  match key with
  | [] => false
  | c :: cs => isIdentifierStart c && cs.all isIdentifierRest

/-- A text with a backslash before every backtick. -/
def escapeBackticks (cs : List Char) : List Char :=
  cs.flatMap fun c => if c = '\x60' then ['\\', c] else [c]

/-- A text with a backslash before every opening of a placeholder. -/
def escapeOpenings : List Char → List Char
  | [] => []
  | '$' :: '{' :: cs => '\\' :: '$' :: '{' :: escapeOpenings cs
  | c :: cs => c :: escapeOpenings cs

/-- A text as it stands between backticks. -/
def escapeTemplate (cs : List Char) : List Char :=
  escapeOpenings (escapeBackticks cs)

/-- A string between backticks. -/
def block (s : String) : List Char :=
  '\x60' :: (escapeTemplate s.toList ++ ['\x60'])

/-- A key of an object. -/
def keyText (key : String) : List Char :=
  if isIdentifier key.toList then key.toList else quote key

/-- The key whose strings are written between backticks. -/
def blockKey : String := "source"

mutual

/-- The literal of a value at a depth; with `raw`, a string stands between backticks. -/
def literalAt (pretty raw : Bool) (depth : Nat) : Json → List Char
  | .null => "null".toList
  | .bool true => "true".toList
  | .bool false => "false".toList
  | .int n => n.repr.toList
  | .str s => if raw then block s else quote s
  | .arr items =>
    if items.isEmpty then ['[', ']']
    else '[' :: itemsLiteral pretty (depth + 1) items ++ lineBreak pretty depth ++ [']']
  | .obj fields =>
    if fields.isEmpty then ['{', '}']
    else '{' :: fieldsLiteral pretty (depth + 1) fields ++ lineBreak pretty depth ++ ['}']

/-- The items of a list at a depth, with commas between them. -/
def itemsLiteral (pretty : Bool) (depth : Nat) : List Json → List Char
  | [] => []
  | v :: vs =>
    lineBreak pretty depth ++ literalAt pretty false depth v ++
      (if vs.isEmpty then [] else ',' :: itemsLiteral pretty depth vs)

/-- The fields of an object at a depth, with commas between them. -/
def fieldsLiteral (pretty : Bool) (depth : Nat) : List (String × Json) → List Char
  | [] => []
  | (k, v) :: fs =>
    lineBreak pretty depth ++ keyText k ++ colon pretty ++
      literalAt pretty (k == blockKey) depth v ++
      (if fs.isEmpty then [] else ',' :: fieldsLiteral pretty depth fs)

end

/-- A value as the default export of a module. -/
def exported (pretty : Bool) (v : Json) : String :=
  String.ofList ("export default ".toList ++ v.literalAt pretty false 0 ++ [';'])

end CallVicinity.Json
