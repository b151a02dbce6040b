import CallVicinity.Text.Blank

/-!
# Dialects

The languages that a file can be written in. `auto` stands for the one that the extension of the
file's path suggests.
-/

namespace CallVicinity

/-- The dialects, and the choice by extension. -/
inductive Dialect where
  | auto
  | javascript
  | typescript
  | tsx
deriving DecidableEq, Repr, Inhabited

namespace Path

/-- The last proper name in a path; slashes and dots after it do not count, and a path that ends
by going up has none. -/
def fileName? (path : List Char) : Option (List Char) :=
  let names := (Text.pieces (· == '/') path).filter fun n => !n.isEmpty && n != ['.']
  match names.getLast? with
  | some name => if name = ['.', '.'] then none else some name
  | none => none

/-- What stands after the last dot of the last name, unless that dot starts the name. -/
def extension? (path : List Char) : Option (List Char) :=
  match fileName? path with
  | none => none
  | some name =>
    let parts := Text.pieces (· == '.') name
    match parts with
    | [] | [_] | [[], _] => none
    | _ => parts.getLast?

end Path

namespace Dialect

/-- The word for a dialect. -/
def toName : Dialect → String
  | .auto => "auto"
  | .javascript => "javascript"
  | .typescript => "typescript"
  | .tsx => "tsx"

/-- The dialect with exactly this word. -/
def ofName? : String → Option Dialect
  | "auto" => some .auto
  | "javascript" => some .javascript
  | "typescript" => some .typescript
  | "tsx" => some .tsx
  | _ => none

/-- The dialect that an extension suggests. -/
def ofExtension (extension : Option (List Char)) : Dialect :=
  match extension.map String.ofList with
  | some "ts" => .typescript
  | some "mts" => .typescript
  | some "cts" => .typescript
  | some "tsx" => .tsx
  | _ => .javascript

/-- The dialect of the file with a path. -/
def resolve (d : Dialect) (path : String) : Dialect :=
  match d with
  | .auto => ofExtension (Path.extension? path.toList)
  | d => d

end Dialect

end CallVicinity
