import CallVicinity.Toml.Basic

/-!
# Writing TOML

Strings and arrays as they are written in a TOML text. A string stands in double quotes as long as
nothing in it has to be escaped, else in single quotes, else between three quotes, and with escapes
where no other way is left. An array of more than one item has a line for each.
-/

namespace CallVicinity.Toml

/-- A control character that can only be written as an escape; tabs and line feeds are not. -/
def needsEscape (c : Char) : Bool :=
  (c.toNat < 0x20 && c != '\t' && c != '\n') || c.toNat == 0x7F

/-- The length of the longest run of a character. -/
def longestRun (q : Char) (cs : List Char) : Nat :=
  (cs.foldl (fun (best, run) c =>
    let run := if c == q then run + 1 else 0
    (max best run, run)) (0, 0)).1

/-- A digit in base sixteen, in upper case. -/
def upperHex (n : Nat) : Char :=
  if n < 10 then Char.ofNat (0x30 + n) else Char.ofNat (0x41 + (n - 10))

/-- How a character other than a double quote is written in double quotes; `long` stands for three
of them. -/
def escapeIn (long : Bool) (c : Char) : List Char :=
  if c = '\x08' then ['\\', 'b']
  else if c = '\t' then ['\\', 't']
  else if c = '\n' then (if long then ['\n'] else ['\\', 'n'])
  else if c = '\x0c' then ['\\', 'f']
  else if c = '\r' then ['\\', 'r']
  else if c = '\\' then ['\\', '\\']
  else if needsEscape c then
    ['\\', 'u', '0', '0', upperHex (c.toNat / 16), upperHex (c.toNat % 16)]
  else [c]

/-- A text in double quotes; of three double quotes in a row inside long ones the third is
escaped. `run` counts the quotes just before. -/
def escapeFrom (long : Bool) (run : Nat) : List Char → List Char
  | [] => []
  | c :: cs =>
    if c = '"' then
      if run < (if long then 2 else 0) then c :: escapeFrom long (run + 1) cs
      else '\\' :: '"' :: escapeFrom long 0 cs
    else escapeIn long c ++ escapeFrom long 0 cs

/-- The line feed that opens a string of several lines. -/
def opening (cs : List Char) : List Char :=
  if cs.contains '\n' then ['\n'] else []

/-- A string. -/
def stringText (s : String) : List Char :=
  let cs := s.toList
  let escapes := cs.any needsEscape
  let slashes := cs.contains '\\'
  let lines := cs.contains '\n'
  if !escapes && !slashes && !cs.contains '"' && !lines then
    '"' :: (escapeFrom false 0 cs ++ ['"'])
  else if !escapes && !cs.contains '\'' && !lines then
    '\'' :: (cs ++ ['\''])
  else if !escapes && !slashes && longestRun '"' cs ≤ 2 then
    ['"', '"', '"'] ++ opening cs ++ escapeFrom true 0 cs ++ ['"', '"', '"']
  else if !escapes && longestRun '\'' cs ≤ 2 then
    ['\'', '\'', '\''] ++ opening cs ++ cs ++ ['\'', '\'', '\'']
  else if lines then
    ['"', '"', '"'] ++ opening cs ++ escapeFrom true 0 cs ++ ['"', '"', '"']
  else '"' :: (escapeFrom false 0 cs ++ ['"'])

/-- A truth value. -/
def boolText (b : Bool) : List Char :=
  if b then "true".toList else "false".toList

/-- An array of strings. -/
def arrayText : List String → List Char
  | [] => ['[', ']']
  | [s] => '[' :: (stringText s ++ [']'])
  | ss => '[' :: '\n' :: (ss.flatMap fun s => "    ".toList ++ stringText s ++ [',', '\n']) ++ [']']

/-- A line that gives a key its value. -/
def entryLine (key : String) (value : List Char) : List Char :=
  key.toList ++ " = ".toList ++ value ++ ['\n']

/-- The line that starts a table. -/
def headerLine (name : String) : List Char :=
  '[' :: name.toList ++ [']', '\n']

end CallVicinity.Toml
