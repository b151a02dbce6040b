/-!
# Parse trees

A parse tree is an ordered tree of labelled nodes. A label gives the kind of the node, its byte
range in the text, the flags of the parser and the fields under which the parent refers to it. A
node is identified by its address: its number among its siblings, then its parent's, up to the root;
so the parent's address is the tail of a node's address, and the nodes above a node have the proper
suffixes of its address. `Node.sites` lists all nodes in pre-order, each with its address and the
nodes above it.
-/

namespace CallVicinity

/-- The kinds of nodes that are told apart; all others are `other`. -/
inductive Kind where
  | identifier
  | propertyIdentifier
  | privatePropertyIdentifier
  | memberExpression
  | subscriptExpression
  | callExpression
  | arguments
  | functionDeclaration
  | generatorFunctionDeclaration
  | functionExpression
  | generatorFunction
  | functionKeyword
  | arrowFunction
  | methodDefinition
  | classDeclaration
  | abstractClassDeclaration
  | classKeyword
  | string
  | templateString
  | number
  | comment
  | htmlComment
  | variableDeclarator
  | assignmentExpression
  | pair
  | fieldDefinition
  | publicFieldDefinition
  | exportStatement
  | defaultKeyword
  | thisKeyword
  | superKeyword
  | parenthesizedExpression
  | nonNullExpression
  | other
deriving DecidableEq, Repr, Inhabited

/-- The kind with a given name in the grammars of JavaScript and TypeScript. -/
def Kind.ofName : String → Kind
  | "identifier" => .identifier
  | "property_identifier" => .propertyIdentifier
  | "private_property_identifier" => .privatePropertyIdentifier
  | "member_expression" => .memberExpression
  | "subscript_expression" => .subscriptExpression
  | "call_expression" => .callExpression
  | "arguments" => .arguments
  | "function_declaration" => .functionDeclaration
  | "generator_function_declaration" => .generatorFunctionDeclaration
  | "function_expression" => .functionExpression
  | "generator_function" => .generatorFunction
  | "function" => .functionKeyword
  | "arrow_function" => .arrowFunction
  | "method_definition" => .methodDefinition
  | "class_declaration" => .classDeclaration
  | "abstract_class_declaration" => .abstractClassDeclaration
  | "class" => .classKeyword
  | "string" => .string
  | "template_string" => .templateString
  | "number" => .number
  | "comment" => .comment
  | "html_comment" => .htmlComment
  | "variable_declarator" => .variableDeclarator
  | "assignment_expression" => .assignmentExpression
  | "pair" => .pair
  | "field_definition" => .fieldDefinition
  | "public_field_definition" => .publicFieldDefinition
  | "export_statement" => .exportStatement
  | "default" => .defaultKeyword
  | "this" => .thisKeyword
  | "super" => .superKeyword
  | "parenthesized_expression" => .parenthesizedExpression
  | "non_null_expression" => .nonNullExpression
  | _ => .other

/-- The roles in which a node refers to its children. -/
inductive Field where
  | arguments
  | function
  | index
  | key
  | left
  | name
  | object
  | parameter
  | parameters
  | property
  | right
  | value
deriving DecidableEq, Repr

/-- The role with a given name. -/
def Field.ofName? : String → Option Field
  | "arguments" => some .arguments
  | "function" => some .function
  | "index" => some .index
  | "key" => some .key
  | "left" => some .left
  | "name" => some .name
  | "object" => some .object
  | "parameter" => some .parameter
  | "parameters" => some .parameters
  | "property" => some .property
  | "right" => some .right
  | "value" => some .value
  | _ => none

/-- What the parser says of one node. -/
structure Label where
  kind : Kind
  /-- Byte offset of the first byte. -/
  start : Nat
  /-- Byte offset after the last byte. -/
  stop : Nat
  /-- The node is a rule of the grammar, not a bare token. -/
  named : Bool
  /-- The node was made up by the parser to go on. -/
  missing : Bool
  /-- The node or one below it holds a syntax error. -/
  faulty : Bool
  /-- The roles in which the parent refers to the node. -/
  fields : List Field
deriving DecidableEq, Repr, Inhabited

/-- A node of a parse tree with all that is below it. -/
inductive Node where
  | mk (label : Label) (children : List Node)
deriving Repr, Inhabited

namespace Node

/-- What the parser says of the node. -/
def label : Node → Label
  | .mk l _ => l

/-- The children in the order of the text. -/
def children : Node → List Node
  | .mk _ cs => cs

/-- The kind of the node. -/
def kind (n : Node) : Kind := n.label.kind

/-- The child in a given role. -/
def child? (n : Node) (f : Field) : Option Node :=
  n.children.find? fun c => c.label.fields.contains f

/-- The number of the child in a given role among the children. -/
def childNumber? (n : Node) (f : Field) : Option Nat :=
  n.children.findIdx? fun c => c.label.fields.contains f

end Node

/-! ### Trees from rows -/

/-- A node of a tree written as a list in pre-order: its depth and its label. -/
structure Row where
  depth : Nat
  label : Label
deriving Repr

/-- Puts a row in front of the trees of the later rows: the leading trees one level deeper become
its children. -/
def Row.adopt (row : Row) (later : List (Nat × Node)) : List (Nat × Node) :=
  let below : Nat × Node → Bool := fun t => t.1 == row.depth + 1
  (row.depth, .mk row.label ((later.takeWhile below).map (·.2))) :: later.dropWhile below

/-- The tree whose nodes in pre-order are the given rows; `none` where the depths are not those of
one tree. -/
def Node.ofRows? (rows : List Row) : Option Node :=
  match rows.foldr Row.adopt [] with
  | [(0, root)] => some root
  | _ => none

/-! ### Sites -/

/-- The identity of a node in its tree: its number among its siblings, then its parent's, and so on
up to the root, whose address is empty. -/
abbrev Address := List Nat

/-- The addresses of the nodes above an address, nearest first. -/
def Address.above : Address → List Address
  | [] => []
  | _ :: a => a :: Address.above a

/-- A node in its place in a tree. -/
structure Site where
  node : Node
  address : Address
  /-- The nodes above, nearest first. -/
  above : List Node
deriving Inhabited

namespace Site

/-- The node directly above. -/
def parent? (s : Site) : Option Node := s.above.head?

/-- The node two levels above. -/
def grandparent? (s : Site) : Option Node := s.above[1]?

/-- The number of the node among its siblings. -/
def number? (s : Site) : Option Nat := s.address.head?

end Site

mutual

/-- The sites of the tree below and at a node with the given address and nodes above, in
pre-order. -/
def Node.sitesAt (address : Address) (above : List Node) : Node → List Site
  | .mk l cs =>
    ⟨.mk l cs, address, above⟩ :: Node.sitesOfChildren address (.mk l cs :: above) 0 cs

/-- The sites of the trees of siblings that are numbered from `k` on below the node with the given
address. -/
def Node.sitesOfChildren (address : Address) (above : List Node) (k : Nat) : List Node → List Site
  | [] => []
  | c :: cs =>
    Node.sitesAt (k :: address) above c ++ Node.sitesOfChildren address above (k + 1) cs

end

/-- All nodes of a tree in pre-order. -/
def Node.sites (root : Node) : List Site :=
  root.sitesAt [] []

end CallVicinity
