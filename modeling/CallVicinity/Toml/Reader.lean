import CallVicinity.Toml.Table

/-!
# Reading TOML

`Toml.read?` reads a whole text into a table; it is `none` for a text that is not TOML. Every reader
takes the text that is left and gives what it read and the text after it.
-/

namespace CallVicinity.Toml

/-! ### Blanks and line ends -/

/-- The text without spaces and tabs at its start. -/
def skipSpaces (cs : List Char) : List Char := cs.dropWhile isSpace

/-- The text without blanks, line ends and comments at its start; with `comment`, the text starts
inside a comment. -/
def skipGap (comment : Bool) : List Char → List Char
  | [] => []
  | c :: cs =>
    if c = '\n' then skipGap false cs
    else if c = '\r' then (if cs.head? = some '\n' then skipGap false cs else c :: cs)
    else if comment then (if isCommentChar c then skipGap true cs else c :: cs)
    else if isSpace c then skipGap false cs
    else if c = '#' then skipGap true cs
    else c :: cs

/-- The text after the end of its first line, where only blanks and a comment come before it. -/
def endLine? (cs : List Char) : Option (List Char) :=
  let cs := skipSpaces cs
  let cs := if cs.head? = some '#' then cs.dropWhile isCommentChar else cs
  match cs with
  | [] => some []
  | '\n' :: rest => some rest
  | '\r' :: '\n' :: rest => some rest
  | _ => none

/-! ### Strings -/

/-- The value of a digit in base sixteen. -/
def hexValue? (c : Char) : Option Nat :=
  if c.isDigit then some (c.toNat - 0x30)
  else if 'a' ≤ c ∧ c ≤ 'f' then some (c.toNat - 0x61 + 10)
  else if 'A' ≤ c ∧ c ≤ 'F' then some (c.toNat - 0x41 + 10)
  else none

/-- The character with a number written in base sixteen. -/
def hexChar? (digits : List Char) : Option Char := do
  let values ← digits.mapM hexValue?
  let n := values.foldl (fun n d => 16 * n + d) 0
  if n.isValidChar then some (Char.ofNat n) else none

/-- The character that a letter after a backslash stands for. -/
def escaped? : Char → Option Char
  | 'b' => some '\x08'
  | 't' => some '\t'
  | 'n' => some '\n'
  | 'f' => some '\x0c'
  | 'r' => some '\r'
  | '"' => some '"'
  | '\\' => some '\\'
  | _ => none

/-- The character after a backslash and the number of characters that stand for it. -/
def escape? (cs : List Char) : Option (Char × Nat) :=
  match cs with
  | 'u' :: rest => if rest.length < 4 then none else (hexChar? (rest.take 4)).map (·, 5)
  | 'U' :: rest => if rest.length < 8 then none else (hexChar? (rest.take 8)).map (·, 9)
  | c :: _ => (escaped? c).map (·, 1)
  | [] => none

/-- Puts characters before the text that was read. -/
def prepend (cs : List Char) : Option (List Char × List Char) → Option (List Char × List Char) :=
  Option.map fun r => (cs ++ r.1, r.2)

/-- The rest of a string in double quotes, after `skip` characters. -/
def basicRest : Nat → List Char → Option (List Char × List Char)
  | _, [] => none
  | skip + 1, _ :: cs => basicRest skip cs
  | 0, c :: cs =>
    if c = '"' then some ([], cs)
    else if c = '\\' then
      match escape? cs with
      | some (e, n) => prepend [e] (basicRest n cs)
      | none => none
    else if isBasicChar c then prepend [c] (basicRest 0 cs)
    else none

/-- The rest of a string in single quotes. -/
def literalRest : List Char → Option (List Char × List Char)
  | [] => none
  | c :: cs =>
    if c = '\'' then some ([], cs)
    else if isLiteralChar c then prepend [c] (literalRest cs)
    else none

/-- The end of a string between three quotes `q`: how many quotes belong to the string and the text
after it. The last three of up to five quotes end the string. -/
def closeLong? (q : Char) (cs : List Char) : Option (List Char × List Char) :=
  let n := (cs.takeWhile (· == q)).length
  if n < 3 then none
  else
    let inner := min n 5 - 3
    some (List.replicate inner q, cs.drop (inner + 3))

/-- The rest of a string between three double quotes, after `skip` characters; with `gap`, blanks and
line ends are left out first. -/
def longBasicRest : Nat → Bool → List Char → Option (List Char × List Char)
  | _, _, [] => none
  | skip + 1, gap, _ :: cs => longBasicRest skip gap cs
  | 0, gap, c :: cs =>
    if gap && (isSpace c || c == '\n') then longBasicRest 0 true cs
    else if c = '\r' then
      if cs.head? = some '\n' then longBasicRest 0 gap cs else none
    else if c = '"' then
      match closeLong? '"' (c :: cs) with
      | some done => some done
      | none => prepend [c] (longBasicRest 0 false cs)
    else if c = '\\' then
      match escape? cs with
      | some (e, n) => prepend [e] (longBasicRest n false cs)
      | none =>
        match skipSpaces cs with
        | '\n' :: _ => longBasicRest 0 true cs
        | '\r' :: '\n' :: _ => longBasicRest 0 true cs
        | _ => none
    else if c = '\n' || isBasicChar c then prepend [c] (longBasicRest 0 false cs)
    else none

/-- The rest of a string between three single quotes. -/
def longLiteralRest : List Char → Option (List Char × List Char)
  | [] => none
  | c :: cs =>
    if c = '\r' then (if cs.head? = some '\n' then longLiteralRest cs else none)
    else if c = '\'' then
      match closeLong? '\'' (c :: cs) with
      | some done => some done
      | none => prepend [c] (longLiteralRest cs)
    else if c = '\n' || isLiteralChar c then prepend [c] (longLiteralRest cs)
    else none

/-- The text without a line end at its start. -/
def skipLineEnd : List Char → List Char
  | '\n' :: cs => cs
  | '\r' :: '\n' :: cs => cs
  | cs => cs

/-- A string on one line. -/
def shortString? : List Char → Option (List Char × List Char)
  | '"' :: cs => basicRest 0 cs
  | '\'' :: cs => literalRest cs
  | _ => none

/-- A string. -/
def string? (cs : List Char) : Option (List Char × List Char) :=
  match cs with
  | '"' :: '"' :: '"' :: rest => longBasicRest 0 false (skipLineEnd rest)
  | '\'' :: '\'' :: '\'' :: rest => longLiteralRest (skipLineEnd rest)
  | _ => shortString? cs

/-! ### Numbers and points in time -/

/-- The leading digits of class `p`, of which two neighbours may have an underscore between them. -/
def digitRun (p : Char → Bool) : List Char → List Char × List Char
  | [] => ([], [])
  | '_' :: d :: cs =>
    if p d then
      let (ds, rest) := digitRun p cs
      (d :: ds, rest)
    else ([], '_' :: d :: cs)
  | d :: cs =>
    if p d then
      let (ds, rest) := digitRun p cs
      (d :: ds, rest)
    else ([], d :: cs)

/-- At least one digit of class `p`, with underscores between digits. -/
def digits? (p : Char → Bool) : List Char → Option (List Char × List Char)
  | d :: cs =>
    if p d then
      let (ds, rest) := digitRun p cs
      some (d :: ds, rest)
    else none
  | [] => none

/-- A whole number without a sign: a zero, or digits of which the first is none. -/
def decimal? : List Char → Option (List Char × List Char)
  | '0' :: cs => some (['0'], cs)
  | cs => digits? Char.isDigit cs

/-- The number with the given digits. -/
def ofDigits (base : Nat) (ds : List Char) : Nat :=
  ds.foldl (fun n d => base * n + (hexValue? d).getD 0) 0

/-- A whole number where it fits in 64 bits with a sign. -/
def fit? (n : Int) : Option Toml :=
  if -0x8000000000000000 ≤ n ∧ n < 0x8000000000000000 then some (.integer n) else none

/-- An optional sign; `true` is a minus. -/
def sign : List Char → Bool × List Char
  | '+' :: cs => (false, cs)
  | '-' :: cs => (true, cs)
  | cs => (false, cs)

/-- Whether `m · 10 ^ (e - shift)` is beyond the largest double. -/
def overflows (m e shift : Nat) : Bool :=
  if m = 0 then false
  else
    let size := (Nat.toDigits 10 m).length + e
    if size > 320 + shift then true
    else if size < 300 + shift then false
    else Nat.pow 10 shift * (Nat.pow 2 1024 - Nat.pow 2 970) ≤ m * Nat.pow 10 e

/-- The exponent of a number with a fraction. -/
def exponent? : List Char → Option ((Bool × Nat) × List Char)
  | c :: cs =>
    if c = 'e' ∨ c = 'E' then
      let (minus, rest) := sign cs
      (digits? Char.isDigit rest).map fun (ds, after) => ((minus, ofDigits 10 ds), after)
    else none
  | [] => none

/-- The part of a number after its whole digits that makes it a number with a fraction. -/
def fraction? (minus : Bool) (whole : List Char) (cs : List Char) : Option (Toml × List Char) :=
  let (frac, rest) : List Char × List Char :=
    match cs with
    | '.' :: cs' =>
      match digits? Char.isDigit cs' with
      | some r => r
      | none => ([], cs)
    | _ => ([], cs)
  let exp := exponent? rest
  if frac.isEmpty && exp.isNone then none
  else
    let ((small, e), after) := exp.getD ((false, 0), rest)
    let m := ofDigits 10 (whole ++ frac)
    let tooLarge :=
      if small then overflows m 0 (frac.length + e) else overflows m e frac.length
    if tooLarge && !minus then none else some (.float, after)

/-- A whole number in a base with its mark read already. -/
def based? (base : Nat) (p : Char → Bool) (cs : List Char) : Option (Toml × List Char) := do
  let (ds, rest) ← digits? p cs
  let n ← fit? (ofDigits base ds)
  return (n, rest)

/-- A number. -/
def number? (cs : List Char) : Option (Toml × List Char) :=
  match cs with
  | '0' :: 'x' :: rest => based? 16 (fun c => (hexValue? c).isSome) rest
  | '0' :: 'o' :: rest => based? 8 (fun c => '0' ≤ c && c ≤ '7') rest
  | '0' :: 'b' :: rest => based? 2 (fun c => c == '0' || c == '1') rest
  | _ =>
    let (minus, unsigned) := sign cs
    match unsigned with
    | 'i' :: 'n' :: 'f' :: rest => some (.float, rest)
    | 'n' :: 'a' :: 'n' :: rest => some (.float, rest)
    | _ => do
      let (ds, rest) ← decimal? unsigned
      match rest.head? with
      | some '.' | some 'e' | some 'E' => fraction? minus ds rest
      | _ =>
        let n : Int := ofDigits 10 ds
        let v ← fit? (if minus then -n else n)
        return (v, rest)

/-- A number of exactly `width` digits between two bounds. -/
def field? (width low high : Nat) (cs : List Char) : Option (Nat × List Char) :=
  let ds := cs.take width
  if ds.length = width ∧ ds.all Char.isDigit then
    let n := ofDigits 10 ds
    if low ≤ n ∧ n ≤ high then some (n, cs.drop width) else none
  else none

/-- The text after a given character. -/
def after? (c : Char) : List Char → Option (List Char)
  | [] => none
  | d :: cs => if c = d then some cs else none

/-- The length of a month. -/
def daysIn (year month : Nat) : Nat :=
  if month = 2 then
    if year % 4 = 0 ∧ (year % 100 ≠ 0 ∨ year % 400 = 0) then 29 else 28
  else if month = 4 ∨ month = 6 ∨ month = 9 ∨ month = 11 then 30
  else 31

/-- The text after a date. -/
def date? (cs : List Char) : Option (List Char) := do
  let (year, cs) ← field? 4 0 9999 cs
  let cs ← after? '-' cs
  let (month, cs) ← field? 2 1 12 cs
  let cs ← after? '-' cs
  let (_, cs) ← field? 2 1 (daysIn year month) cs
  return cs

/-- The text after the time of a day. -/
def time? (cs : List Char) : Option (List Char) := do
  let (_, cs) ← field? 2 0 23 cs
  let cs ← after? ':' cs
  let (_, cs) ← field? 2 0 59 cs
  let cs ← after? ':' cs
  let (_, cs) ← field? 2 0 60 cs
  match cs with
  | '.' :: d :: rest => return if d.isDigit then rest.dropWhile Char.isDigit else cs
  | _ => return cs

/-- The text after the offset of a clock. -/
def clockOffset? : List Char → Option (List Char)
  | 'Z' :: cs => some cs
  | 'z' :: cs => some cs
  | c :: cs =>
    if c = '+' ∨ c = '-' then do
      let (_, cs) ← field? 2 0 23 cs
      let cs ← after? ':' cs
      let (_, cs) ← field? 2 0 59 cs
      return cs
    else none
  | [] => none

/-- The text after a date, a time or both. -/
def moment? (cs : List Char) : Option (List Char) :=
  match date? cs with
  | none => time? cs
  | some rest =>
    match rest with
    | c :: more =>
      if c = 'T' ∨ c = 't' ∨ c = ' ' then
        match time? more with
        | some late => some ((clockOffset? late).getD late)
        | none => some rest
      else some rest
    | [] => some rest

/-! ### Keys -/

/-- One part of a key. -/
def keyPart? (cs : List Char) : Option (String × List Char) :=
  match cs with
  | '"' :: _ | '\'' :: _ => (shortString? cs).map fun (s, rest) => (String.ofList s, rest)
  | _ =>
    let bare := cs.takeWhile isBareKeyChar
    if bare.isEmpty then none else some (String.ofList bare, cs.drop bare.length)

/-- The parts of a dotted key. -/
def keyParts? : Nat → List Char → Option (List String × List Char)
  | 0, _ => none
  | fuel + 1, cs => do
    let (part, rest) ← keyPart? (skipSpaces cs)
    match skipSpaces rest with
    | '.' :: more =>
      let (parts, after) ← keyParts? fuel more
      return (part :: parts, after)
    | after => return ([part], after)

/-- How deep keys and values may be nested. -/
def depthLimit : Nat := 80

/-- A dotted key: the parts before the last one and the last one. -/
def key? (cs : List Char) : Option ((List String × String) × List Char) := do
  let (parts, rest) ← keyParts? (depthLimit - 1) cs
  let last ← parts.getLast?
  return ((parts.dropLast, last), rest)

/-! ### Values -/

mutual

/-- A value with at most `room` levels of arrays and tables. -/
def value? : Nat → Nat → List Char → Option (Toml × List Char)
  | 0, _, _ => none
  | fuel + 1, room, cs =>
    match cs with
    | [] => none
    | '[' :: rest =>
      if room = 0 then none
      else (items? fuel (room - 1) rest).map fun (vs, after) => (.array vs, after)
    | '{' :: rest =>
      if room = 0 then none
      else
        match skipSpaces rest with
        | '}' :: after => some (.table [], after)
        | rest =>
          (pairs? fuel (room - 1) Table.empty rest).map fun (t, after) => (t.toToml, after)
    | '"' :: _ | '\'' :: _ => (string? cs).map fun (s, after) => (.string (String.ofList s), after)
    | 't' :: 'r' :: 'u' :: 'e' :: after => some (.boolean true, after)
    | 'f' :: 'a' :: 'l' :: 's' :: 'e' :: after => some (.boolean false, after)
    | _ =>
      match moment? cs with
      | some after => some (.moment, after)
      | none => number? cs

/-- The items of an array up to its closing bracket. -/
def items? : Nat → Nat → List Char → Option (List Toml × List Char)
  | 0, _, _ => none
  | fuel + 1, room, cs =>
    match skipGap false cs with
    | ']' :: after => some ([], after)
    | cs => do
      let (v, rest) ← value? fuel room cs
      match skipGap false rest with
      | ',' :: more =>
        let (vs, after) ← items? fuel room more
        return (v :: vs, after)
      | ']' :: after => return ([v], after)
      | _ => none

/-- The entries of a table on one line up to its closing brace. -/
def pairs? : Nat → Nat → Table → List Char → Option (Table × List Char)
  | 0, _, _, _ => none
  | fuel + 1, room, t, cs => do
    let ((path, key), rest) ← key? cs
    let rest ← after? '=' rest
    let (v, rest) ← value? fuel room (skipSpaces rest)
    let t ← t.insert? path key v
    match skipSpaces rest with
    | ',' :: more => pairs? fuel room t more
    | '}' :: after => return (t, after)
    | _ => none

end

/-! ### Texts -/

/-- The table of a text and the header that entries belong to. -/
structure Outlined where
  root : Table
  header : List String

/-- Reads the lines of a text, at most `fuel` of them. -/
def lines? : Nat → Outlined → List Char → Option Table
  | 0, _, _ => none
  | fuel + 1, o, cs =>
    match skipSpaces cs with
    | [] => some o.root
    | '#' :: rest => do lines? fuel o (← endLine? ('#' :: rest))
    | '\n' :: rest => lines? fuel o rest
    | '\r' :: '\n' :: rest => lines? fuel o rest
    | '[' :: '[' :: rest => do
      let ((path, key), rest) ← key? rest
      let rest ← (after? ']' rest).bind (after? ']')
      let root ← o.root.append? path key
      lines? fuel ⟨root, path ++ [key]⟩ (← endLine? rest)
    | '[' :: rest => do
      let ((path, key), rest) ← key? rest
      let rest ← after? ']' rest
      let root ← o.root.define? path key
      lines? fuel ⟨root, path ++ [key]⟩ (← endLine? rest)
    | rest => do
      let ((path, key), after) ← key? rest
      let after ← after? '=' after
      let (v, after) ← value? (2 * after.length + 2) (depthLimit - 1) (skipSpaces after)
      let root ← o.root.alter? false (Table.insert? path key v) o.header
      lines? fuel ⟨root, o.header⟩ (← endLine? after)

/-- The table of a TOML text. A byte order mark at its start is left out. -/
def read? (text : String) : Option Toml :=
  let cs := text.toList
  let cs := if cs.head? = some '\uFEFF' then cs.tail else cs
  (lines? (cs.length + 1) ⟨Table.empty, []⟩ cs).map Table.toToml

end CallVicinity.Toml
