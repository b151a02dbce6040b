import CallVicinity.Text.Blank
import CallVicinity.Tree.Construct

/-!
# Names of declarations

A declaration is named by its own identifier, by the variable, property or key that it is the value
of, by the event that it listens to, or not at all. A function that is written in place as an
argument of a call is no declaration, unless the call adds or removes an event listener and the
function is its second argument.
-/

namespace CallVicinity

/-- The kinds of declarations. -/
inductive DeclKind where
  | function
  | arrow
  | method
  | classDef
deriving DecidableEq, Repr, Inhabited

/-- The word for a kind, which also starts the ids of its declarations. -/
def DeclKind.tag : DeclKind → String
  | .function => "function"
  | .arrow => "arrow"
  | .method => "method"
  | .classDef => "class"

/-- The kind of declaration that a function in a given form is. -/
def FunctionForm.declKind : FunctionForm → DeclKind
  | .declaration => .function
  | .expression => .function
  | .arrow => .arrow
  | .method => .method

namespace Naming

/-- The name of a function without one. -/
def anonymous : String := "<anonymous>"

/-- The name of a class without one. -/
def anonymousClass : String := "<anonymous-class>"

/-- The name of what a module exports by default without a name of its own. -/
def defaultExport : String := "<default>"

/-- Stands for an event that is not a plain string. -/
def dynamicEvent : String := "<dynamic>"

/-- Stands for an expression that has no short text. -/
def unnamedTarget : String := "<expr>"

/-- The methods that register and remove event listeners. -/
def listenerMethods : List (List Char) :=
  ["addEventListener".toList, "removeEventListener".toList]

/-- The text of a property key: a plain name, the value of a string or a number. -/
def propertyKey? (source : List Char) (key : Node) : Option (List Char) :=
  match key.kind with
  | .propertyIdentifier => some (key.text source)
  | .privatePropertyIdentifier => some (key.text source)
  | .identifier => some (key.text source)
  | .string => key.literalValue? source
  | .number => key.literalValue? source
  | _ => none

/-- The name that an assignment gives to its right side. -/
def targetName? (source : List Char) (target : Node) : Option (List Char) :=
  match target.construct with
  | .identifier => some (target.text source)
  | .member _ property => some (property.text source)
  | .subscript _ index => index.literalValue? source
  | _ => none

/-- The name of a variable that is bound without a pattern. -/
def variableName? (source : List Char) (target : Node) : Option (List Char) :=
  match target.construct with
  | .identifier => some (target.text source)
  | _ => none

/-- The name that the node above gives to its child with a given number. -/
def nameFromParent? (source : List Char) (number : Nat) (parent : Node) : Option (List Char) :=
  match parent.kind with
  | .variableDeclarator =>
    if parent.childNumber? .value = some number then
      (parent.child? .name).bind (variableName? source)
    else none
  | .assignmentExpression =>
    if parent.childNumber? .right = some number then
      (parent.child? .left).bind (targetName? source)
    else none
  | .pair =>
    if parent.childNumber? .value = some number then
      (parent.child? .key).bind (propertyKey? source)
    else none
  | .fieldDefinition | .publicFieldDefinition =>
    if parent.childNumber? .value = some number then
      ((parent.child? .property).or (parent.child? .name)).bind (propertyKey? source)
    else none
  | .exportStatement =>
    if parent.children.any (·.kind == .defaultKeyword) then some defaultExport.toList else none
  | _ => none

/-- The name of a function or class that is not a method: its own identifier, else what the node
above says. -/
def inferredName? (source : List Char) (s : Site) : Option (List Char) :=
  match s.node.child? .name with
  | some name => some (name.text source)
  | none => s.parent?.bind fun parent => s.number?.bind (nameFromParent? source · parent)

/-- The name of a method: its key. -/
def methodName? (source : List Char) (s : Site) : Option (List Char) :=
  (s.node.child? .name).bind (propertyKey? source)

mutual

/-- A short text for the object that a listener is put on. -/
def targetText (source : List Char) : Node → List Char
  | .mk l cs =>
    match (Node.mk l cs).construct with
    | .identifier => (Node.mk l cs).text source
    | .member _ property => targetOfObject source cs ++ '.' :: property.text source
    | .subscript _ index =>
      targetOfObject source cs ++
        '[' :: ((index.literalValue? source).getD unnamedTarget.toList ++ [']'])
    | _ =>
      match l.kind with
      | .thisKeyword => "this".toList
      | .superKeyword => "super".toList
      | .parenthesizedExpression | .nonNullExpression => targetOfInner source cs
      | _ => unnamedTarget.toList

/-- The text for the child that is the object of a property access. -/
def targetOfObject (source : List Char) : List Node → List Char
  | [] => unnamedTarget.toList
  | c :: cs =>
    if c.label.fields.contains .object then targetText source c else targetOfObject source cs

/-- The text for the first child that is a rule of the grammar. -/
def targetOfInner (source : List Char) : List Node → List Char
  | [] => unnamedTarget.toList
  | c :: cs => if c.label.named then targetText source c else targetOfInner source cs

end

/-- What a function without a name is to the call around it. -/
inductive ArgumentRole where
  /-- It is not an argument of a call. -/
  | none
  /-- It is an argument that is no declaration. -/
  | inline
  /-- It listens to an event and has this name. -/
  | listener (name : List Char)

/-- The role of a function whose parent and the node above that are given. -/
def argumentRole (source : List Char) (s : Site) : ArgumentRole :=
  match s.parent?, s.grandparent? with
  | some arguments, some call =>
    if arguments.kind = .arguments then
      match call.construct with
      | .call callee =>
        match callee.construct with
        | .member object property =>
          let method := property.text source
          let args := arguments.positionalArguments
          if listenerMethods.contains method && args[1]?.map (·.2) == s.number? then
            let event :=
              (args.head?.bind fun a => a.1.stringValue? source).getD dynamicEvent.toList
            .listener ("listener:".toList ++ method ++ ':' :: event ++ '@' :: targetText source object)
          else .inline
        | _ => .inline
      | _ => .none
    else .none
  | _, _ => .none

/-- The parameters of a function as one line: without the parentheses around them, each run of
blanks as one space, and without commas at the end. -/
def parameterLine (source : List Char) (function : Node) : List Char :=
  match (function.child? .parameters).or (function.child? .parameter) with
  | none => []
  | some parameters =>
    let raw := parameters.text source
    let inner := ((Text.stripStart? ['('] raw).bind (Text.stripLast? ')')).getD raw
    Text.trim (Text.dropEndWhile (· == ',') (Text.join [' '] (Text.words inner)))

end Naming

/-- What is recorded of a declaration besides its place: kind, name and parameters. -/
structure Heading where
  kind : DeclKind
  name : String
  params : String
deriving DecidableEq, Repr

namespace Site

/-- The heading of a class. -/
def classHeading? (source : List Char) (s : Site) : Option Heading :=
  match s.node.construct with
  | .classBody =>
    let name := ((Naming.inferredName? source s).map String.ofList).getD Naming.anonymousClass
    some ⟨.classDef, name, ""⟩
  | _ => none

/-- The name of a function in a given form that is a declaration; `none` where it is a callback
written in place. -/
def functionName? (source : List Char) (form : FunctionForm) (s : Site) : Option String :=
  let plain : Option (List Char) :=
    if form = .method then Naming.methodName? source s else Naming.inferredName? source s
  let named := (plain.map String.ofList).getD Naming.anonymous
  if form ≠ .declaration ∧ (s.node.child? .name).isNone then
    match Naming.argumentRole source s with
    | .none => some named
    | .inline => none
    | .listener name => some (String.ofList name)
  else some named

/-- The heading of a function that is a declaration. -/
def functionHeading? (source : List Char) (s : Site) : Option Heading :=
  match s.node.construct with
  | .function form =>
    (functionName? source form s).map fun name =>
      ⟨form.declKind, name, String.ofList (Naming.parameterLine source s.node)⟩
  | _ => none

end Site

end CallVicinity
