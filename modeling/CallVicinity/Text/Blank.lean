/-!
# Blanks, trimming and splitting

White space here is the Unicode property White_Space. The functions work on lists of characters:
`trim` drops the blanks at the two ends, `pieces` splits at every character of a class, and `words`
gives the maximal runs without blanks.
-/

namespace CallVicinity.Text

/-- The characters with the Unicode property White_Space. -/
def isBlank (c : Char) : Bool :=
  let n := c.toNat
  (0x09 ≤ n && n ≤ 0x0D) || n == 0x20 || n == 0x85 || n == 0xA0 || n == 0x1680 ||
    (0x2000 ≤ n && n ≤ 0x200A) || n == 0x2028 || n == 0x2029 || n == 0x202F || n == 0x205F ||
    n == 0x3000

/-- The text without the characters of class `p` at its end. -/
def dropEndWhile (p : Char → Bool) (cs : List Char) : List Char :=
  (cs.reverse.dropWhile p).reverse

/-- The text without the blanks at its end. -/
def trimEnd (cs : List Char) : List Char :=
  dropEndWhile isBlank cs

/-- The text without the blanks at its two ends. -/
def trim (cs : List Char) : List Char :=
  trimEnd (cs.dropWhile isBlank)

/-- The parts of a text between the characters of class `p`; there is one more part than there
are such characters. -/
def pieces (p : Char → Bool) (cs : List Char) : List (List Char) :=
  cs.foldr (fun c parts =>
    if p c then [] :: parts
    else match parts with
      | [] => [[c]]
      | w :: ws => (c :: w) :: ws) [[]]

/-- The maximal runs of characters that are not blank. -/
def words (cs : List Char) : List (List Char) :=
  (pieces isBlank cs).filter fun w => !w.isEmpty

/-- The parts joined with `sep` between two neighbours. -/
def join (sep : List Char) : List (List Char) → List Char
  | [] => []
  | [w] => w
  | w :: ws => w ++ sep ++ join sep ws

/-- Whether `part` occurs in `cs` as a contiguous run. -/
def occursIn (part : List Char) : List Char → Bool
  | [] => part.isEmpty
  | c :: cs => part.isPrefixOf (c :: cs) || occursIn part cs

/-- The text after `start`, where the text begins with it. -/
def stripStart? (start : List Char) (cs : List Char) : Option (List Char) :=
  if start.isPrefixOf cs then some (cs.drop start.length) else none

/-- The text before `stop`, where the text ends with that character. -/
def stripLast? (stop : Char) (cs : List Char) : Option (List Char) :=
  if cs.getLast? = some stop then some cs.dropLast else none

end CallVicinity.Text
