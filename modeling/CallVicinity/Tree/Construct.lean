import CallVicinity.Text.Offset
import CallVicinity.Tree.Basic

/-!
# Constructs of the language

The few constructs that declarations and calls are read from. `Node.construct` classifies a node;
everything else in a tree is `other` and is only walked through.
-/

namespace CallVicinity

/-- The four ways to write a function. -/
inductive FunctionForm where
  | declaration
  | expression
  | arrow
  | method
deriving DecidableEq, Repr

/-- The constructs that are told apart, with their parts. -/
inductive Construct where
  | identifier
  | member (object property : Node)
  | subscript (object index : Node)
  | call (callee : Node)
  | function (form : FunctionForm)
  | classBody
  | string
  | number
  | other

namespace Node

/-- The text of a node; empty where its range is no part of the text. -/
def text (n : Node) (source : List Char) : List Char :=
  (Text.cut source n.label.start n.label.stop).getD []

/-- The construct that a node is. -/
def construct (n : Node) : Construct :=
  match n.kind with
  | .identifier => .identifier
  | .memberExpression =>
    match n.child? .object, n.child? .property with
    | some object, some property => .member object property
    | _, _ => .other
  | .subscriptExpression =>
    match n.child? .object, n.child? .index with
    | some object, some index => .subscript object index
    | _, _ => .other
  | .callExpression =>
    match n.child? .function with
    | some callee => .call callee
    | none => .other
  | .functionDeclaration => .function .declaration
  | .generatorFunctionDeclaration => .function .declaration
  | .functionExpression => .function .expression
  | .generatorFunction => .function .expression
  | .functionKeyword => if n.label.named then .function .expression else .other
  | .arrowFunction => .function .arrow
  | .methodDefinition => .function .method
  | .classDeclaration => .classBody
  | .abstractClassDeclaration => .classBody
  | .classKeyword => if n.label.named then .classBody else .other
  | .string => .string
  | .number => .number
  | _ => .other

/-- The text between two equal quotes. -/
def unquote? : List Char → Option (List Char)
  | [] => none
  | opening :: rest =>
    match rest.getLast? with
    | some closing =>
      if opening = closing ∧ (opening = '"' ∨ opening = '\'') then some rest.dropLast else none
    | none => none

/-- The value of a string literal without its quotes, or the text of a number. -/
def literalValue? (n : Node) (source : List Char) : Option (List Char) :=
  match n.construct with
  | .string => unquote? (n.text source)
  | .number => some (n.text source)
  | _ => none

/-- The value of a string literal without its quotes. -/
def stringValue? (n : Node) (source : List Char) : Option (List Char) :=
  match n.construct with
  | .string => unquote? (n.text source)
  | _ => none

/-- Whether a node is a comment. -/
def isComment (n : Node) : Bool :=
  n.kind == .comment || n.kind == .htmlComment

/-- The arguments of a call, comments left out, each with its number among all children. -/
def positionalArguments (arguments : Node) : List (Node × Nat) :=
  arguments.children.zipIdx.filter fun c => c.1.label.named && !c.1.isComment

end Node

end CallVicinity
