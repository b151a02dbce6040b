import CallVicinity.Text.Case.Table

/-!
# Lower case

`lower` is the full Unicode lower-casing of a text: every character by itself, except that the
capital sigma becomes its final form at the end of a word and the dotted capital i becomes two
characters. Because of the sigma, the lower-case form of a part of a text need not be a part of the
text's lower-case form. `lowerAscii` changes the letters A to Z only.
-/

namespace CallVicinity.Text

/-- Whether a character lies in one of the inclusive ranges. -/
def inRanges (ranges : List (Nat × Nat)) (c : Char) : Bool :=
  ranges.any fun r => r.1 ≤ c.toNat && c.toNat ≤ r.2

/-- Whether a run of the case table holds the character. -/
def LowerRun.holds (r : LowerRun) (c : Char) : Bool :=
  r.first ≤ c.toNat && c.toNat ≤ r.last && (c.toNat - r.first) % r.step == 0

/-- The lower-case form of a character regarded alone. -/
def lowerChar (c : Char) : List Char :=
  if c.toNat = 0x130 then ['i', Char.ofNat 0x307]
  else match lowerRuns.find? (·.holds c) with
    | some r => [Char.ofNat (c.toNat + r.shift).toNat]
    | none => [c]

/-- Whether a cased character comes first once the case-ignorable ones are skipped. -/
def meetsCased (cs : List Char) : Bool :=
  match cs.dropWhile (inRanges ignorableRanges) with
  | [] => false
  | c :: _ => inRanges casedRanges c

/-- The lower-case form of `cs`, where `before` is the text before it, read backwards. -/
def lowerFrom (before : List Char) : List Char → List Char
  | [] => []
  | c :: cs =>
    let form :=
      if c.toNat = 0x3A3 then
        [if meetsCased before && !meetsCased cs then Char.ofNat 0x3C2 else Char.ofNat 0x3C3]
      else lowerChar c
    form ++ lowerFrom (c :: before) cs

/-- The lower-case form of a text. -/
def lower (cs : List Char) : List Char :=
  lowerFrom [] cs

/-- The text with the letters A to Z in lower case. -/
def lowerAscii (cs : List Char) : List Char :=
  cs.map Char.toLower

end CallVicinity.Text
