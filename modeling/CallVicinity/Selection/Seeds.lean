import CallVicinity.Graph.Basic
import CallVicinity.Text.Blank
import CallVicinity.Text.Case

/-!
# Seeds

The declarations around which a graph is cut out are given as tokens. A token is an id, else a name,
else a part of a name without regard to case.
-/

namespace CallVicinity

namespace Seeds

/-- The tokens of a list separated by commas, without the blanks around them and without empty
ones. -/
def parseList (text : String) : List String :=
  (((Text.pieces (· == ',') text.toList).map Text.trim).filter fun t => !t.isEmpty).map
    String.ofList

end Seeds

namespace Graph

/-- The declarations whose name is the token. -/
def named (g : Graph) (token : String) : List Nat :=
  g.indexesWhere (·.name == token)

/-- The declarations whose name holds the token, both in lower case. -/
def likeNamed (g : Graph) (token : String) : List Nat :=
  let part := Text.lower token.toList
  g.indexesWhere fun n => Text.occursIn part (Text.lower n.name.toList)

/-- The declarations that a token stands for. -/
def matching (g : Graph) (token : String) : IndexSet :=
  match g.indexOf? token with
  | some i => IndexSet.ofList [i]
  | none =>
    match g.named token with
    | [] => IndexSet.ofList (g.likeNamed token)
    | is => IndexSet.ofList is

/-- The declarations that any of the tokens stands for. -/
def matchingAny (g : Graph) (tokens : List String) : IndexSet :=
  tokens.foldr (fun token found => (g.matching token).union found) ∅

end Graph

end CallVicinity
