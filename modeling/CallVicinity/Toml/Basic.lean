/-!
# TOML values

The values of the TOML format. Numbers with a fraction and points in time are only told apart from
the others, as no setting has such a value.
-/

namespace CallVicinity

/-- A value of a TOML text. -/
inductive Toml where
  | string (s : String)
  | integer (n : Int)
  | boolean (b : Bool)
  | float
  | moment
  | array (items : List Toml)
  | table (entries : List (String × Toml))
deriving Inhabited

namespace Toml

/-- Whether a value is a table or an array without entries. -/
def isVoid : Toml → Bool
  | .array items => items.isEmpty
  | .table entries => entries.isEmpty
  | _ => false

/-- A tab or a space. -/
def isSpace (c : Char) : Bool := c == ' ' || c == '\t'

/-- A character that may stand in a comment. -/
def isCommentChar (c : Char) : Bool :=
  c == '\t' || (0x20 ≤ c.toNat && c.toNat != 0x7F)

/-- A character that stands for itself in a string in double quotes. -/
def isBasicChar (c : Char) : Bool :=
  isCommentChar c && c != '"' && c != '\\'

/-- A character that may stand in a string in single quotes. -/
def isLiteralChar (c : Char) : Bool :=
  isCommentChar c && c != '\''

/-- A character that may stand in a key without quotes. -/
def isBareKeyChar (c : Char) : Bool :=
  c.isAlphanum || c == '_' || c == '-'

end Toml

end CallVicinity
