import CallVicinity.Draft.Pass
import CallVicinity.Proofs.Text.Offsets
import CallVicinity.Reindent

/-!
# Trees lower down

With `n` line feeds put in front of a text, the tree of the text is the same tree with `n` added to
all offsets (`Node.lowered`). Everything that is read off a node reads the same there:

> `Node.text_lowered`: the text of a node.

> `Site.classHeading?_lowered`, `Site.functionHeading?_lowered`, `Site.callKey?_lowered`: what is
> recorded at a site, and what a call there refers to.

> `Node.reindented?_lowered`: the text as if it stood at the left margin.

The last one looks at the text in front of the node too, for the start of its line. A node in the
first line has no line feed in front of it, and gets one.
-/

namespace CallVicinity

open Text (lineFeeds)

/-! ## Lowered trees -/

/-- The label with its range moved by `n` bytes. -/
def Label.lowered (n : Nat) (l : Label) : Label :=
  { l with start := l.start + n, stop := l.stop + n }

mutual

/-- The tree with all ranges moved by `n` bytes. -/
def Node.lowered (n : Nat) : Node → Node
  | .mk l cs => .mk (l.lowered n) (Node.loweredAll n cs)

/-- The trees of siblings with all ranges moved by `n` bytes. -/
def Node.loweredAll (n : Nat) : List Node → List Node
  | [] => []
  | c :: cs => c.lowered n :: Node.loweredAll n cs

end

/-- The construct with its parts moved by `n` bytes. -/
def Construct.lowered (n : Nat) : Construct → Construct
  | .member object property => .member (object.lowered n) (property.lowered n)
  | .subscript object index => .subscript (object.lowered n) (index.lowered n)
  | .call callee => .call (callee.lowered n)
  | c => c

/-- The site in the tree with all ranges moved by `n` bytes. -/
def Site.lowered (n : Nat) (s : Site) : Site where
  node := s.node.lowered n
  address := s.address
  above := s.above.map (Node.lowered n)

section Reading

variable (n : Nat) (source : List Char)

theorem Node.loweredAll_eq (cs : List Node) : Node.loweredAll n cs = cs.map (Node.lowered n) := by
  induction cs with
  | nil => rfl
  | cons c cs ih => rw [Node.loweredAll, ih, List.map_cons]

@[simp] theorem Node.label_lowered (t : Node) : (t.lowered n).label = t.label.lowered n := by
  cases t
  rfl

@[simp] theorem Node.children_lowered (t : Node) :
    (t.lowered n).children = t.children.map (Node.lowered n) := by
  cases t with
  | mk l cs => exact Node.loweredAll_eq n cs

@[simp] theorem Node.kind_lowered (t : Node) : (t.lowered n).kind = t.kind := by
  cases t
  rfl

@[simp] theorem Node.child?_lowered (t : Node) (f : Field) :
    (t.lowered n).child? f = (t.child? f).map (Node.lowered n) := by
  unfold Node.child?
  rw [Node.children_lowered, List.find?_map]
  congr 2
  funext c
  simp [Label.lowered]

@[simp] theorem Node.childNumber?_lowered (t : Node) (f : Field) :
    (t.lowered n).childNumber? f = t.childNumber? f := by
  unfold childNumber?
  rw [Node.children_lowered, List.findIdx?_map]
  simp only [Function.comp_def, Node.label_lowered, Label.lowered]

/-- **A node lower down has the same text.** -/
@[simp] theorem Node.text_lowered (t : Node) :
    (t.lowered n).text (lineFeeds n source) = t.text source := by
  unfold Node.text
  rw [Node.label_lowered]
  simp only [Label.lowered, Text.cut_lineFeeds]

@[simp] theorem Node.construct_lowered (t : Node) :
    (t.lowered n).construct = t.construct.lowered n := by
  unfold Node.construct
  rw [Node.kind_lowered]
  -- what is left are the constructs that are read off children or off the label
  split <;> try rfl
  next =>
    rw [Node.child?_lowered, Node.child?_lowered]
    cases t.child? .object <;> cases t.child? .property <;> rfl
  next =>
    rw [Node.child?_lowered, Node.child?_lowered]
    cases t.child? .object <;> cases t.child? .index <;> rfl
  next =>
    rw [Node.child?_lowered]
    cases t.child? .function <;> rfl
  next =>
    rw [Node.label_lowered]
    show (if t.label.named then _ else _) = _
    split <;> rfl
  next =>
    rw [Node.label_lowered]
    show (if t.label.named then _ else _) = _
    split <;> rfl

@[simp] theorem Node.literalValue?_lowered (t : Node) :
    (t.lowered n).literalValue? (lineFeeds n source) = t.literalValue? source := by
  unfold Node.literalValue?
  rw [Node.construct_lowered]
  cases t.construct <;> simp [Construct.lowered]

@[simp] theorem Node.stringValue?_lowered (t : Node) :
    (t.lowered n).stringValue? (lineFeeds n source) = t.stringValue? source := by
  unfold Node.stringValue?
  rw [Node.construct_lowered]
  cases t.construct <;> simp [Construct.lowered]

/-! ## Lowered sites -/

mutual

/-- The sites of a subtree lower down are its sites lower down. -/
theorem Node.sitesAt_lowered (a : Address) (above : List Node) : ∀ t : Node,
    (t.lowered n).sitesAt a (above.map (Node.lowered n)) = (t.sitesAt a above).map (Site.lowered n)
  | .mk l cs => by
    rw [Node.lowered, Node.sitesAt, Node.sitesAt, List.map_cons]
    refine congrArg₂ List.cons ?_ ?_
    · rw [Site.lowered, Node.lowered]
    · rw [← Node.sitesOfChildren_lowered, List.map_cons, Node.lowered]

/-- The same for siblings. -/
theorem Node.sitesOfChildren_lowered (a : Address) (above : List Node) :
    ∀ (cs : List Node) (k : Nat),
      Node.sitesOfChildren a (above.map (Node.lowered n)) k (Node.loweredAll n cs)
        = (Node.sitesOfChildren a above k cs).map (Site.lowered n)
  | [], k => by rw [Node.loweredAll, Node.sitesOfChildren, Node.sitesOfChildren, List.map_nil]
  | c :: cs, k => by
    rw [Node.loweredAll, Node.sitesOfChildren, Node.sitesOfChildren, List.map_append,
      Node.sitesAt_lowered, Node.sitesOfChildren_lowered]

end

/-- The sites of a tree lower down are its sites lower down. -/
theorem Node.sites_lowered (t : Node) : (t.lowered n).sites = t.sites.map (Site.lowered n) :=
  Node.sitesAt_lowered n [] [] t

@[simp] theorem Site.parent?_lowered (s : Site) :
    (s.lowered n).parent? = s.parent?.map (Node.lowered n) :=
  List.head?_map

@[simp] theorem Site.grandparent?_lowered (s : Site) :
    (s.lowered n).grandparent? = s.grandparent?.map (Node.lowered n) :=
  List.getElem?_map

@[simp] theorem Site.node_lowered (s : Site) : (s.lowered n).node = s.node.lowered n := rfl

@[simp] theorem Site.address_lowered (s : Site) : (s.lowered n).address = s.address := rfl

@[simp] theorem Site.number?_lowered (s : Site) : (s.lowered n).number? = s.number? := rfl

/-- The name that the call at a site refers to. -/
theorem Site.callKey?_lowered (s : Site) :
    (s.lowered n).callKey? (lineFeeds n source) = s.callKey? source := by
  have hkey : ∀ t : Node, (t.lowered n).calleeKey? (lineFeeds n source) = t.calleeKey? source := by
    intro t
    unfold Node.calleeKey?
    rw [Node.construct_lowered]
    cases t.construct <;> simp [Construct.lowered]
  unfold Site.callKey?
  rw [Site.node_lowered, Node.construct_lowered]
  cases s.node.construct <;> simp [Construct.lowered, hkey]

/-! ## Names -/

namespace Naming

@[simp] theorem propertyKey?_lowered (key : Node) :
    propertyKey? (lineFeeds n source) (key.lowered n) = propertyKey? source key := by
  unfold propertyKey?
  rw [Node.kind_lowered]
  simp only [Node.text_lowered, Node.literalValue?_lowered]

@[simp] theorem targetName?_lowered (target : Node) :
    targetName? (lineFeeds n source) (target.lowered n) = targetName? source target := by
  unfold targetName?
  rw [Node.construct_lowered]
  cases target.construct <;> simp [Construct.lowered]

@[simp] theorem variableName?_lowered (target : Node) :
    variableName? (lineFeeds n source) (target.lowered n) = variableName? source target := by
  unfold variableName?
  rw [Node.construct_lowered]
  cases target.construct <;> simp [Construct.lowered]

theorem nameFromParent?_lowered (number : Nat) (parent : Node) :
    nameFromParent? (lineFeeds n source) number (parent.lowered n)
      = nameFromParent? source number parent := by
  have hor : ∀ a b : Option Node, (a.map (Node.lowered n)).or (b.map (Node.lowered n))
      = (a.or b).map (Node.lowered n) := by
    intro a b
    cases a <;> rfl
  unfold nameFromParent?
  simp only [Node.kind_lowered, Node.child?_lowered, Node.childNumber?_lowered, hor,
    Option.bind_map, Function.comp_def, variableName?_lowered, targetName?_lowered,
    propertyKey?_lowered, Node.children_lowered, List.any_map]

theorem inferredName?_lowered (s : Site) :
    inferredName? (lineFeeds n source) (s.lowered n) = inferredName? source s := by
  unfold inferredName?
  rw [Site.node_lowered, Node.child?_lowered]
  cases s.node.child? .name with
  | some name => simp
  | none =>
    simp only [Option.map_none, Site.parent?_lowered, Option.bind_map, Function.comp_def,
      Site.number?_lowered, nameFromParent?_lowered]

theorem methodName?_lowered (s : Site) :
    methodName? (lineFeeds n source) (s.lowered n) = methodName? source s := by
  unfold methodName?
  simp only [Site.node_lowered, Node.child?_lowered, Option.bind_map, Function.comp_def,
    propertyKey?_lowered]

mutual

theorem targetText_lowered : ∀ t : Node,
    targetText (lineFeeds n source) (t.lowered n) = targetText source t
  | .mk l cs => by
    have hconstruct := Node.construct_lowered n (.mk l cs)
    have htext := Node.text_lowered n source (.mk l cs)
    rw [Node.lowered] at hconstruct htext ⊢
    rw [targetText, targetText, hconstruct, htext, targetOfObject_lowered, targetOfInner_lowered]
    cases (Node.mk l cs).construct <;> simp [Construct.lowered, Label.lowered]

theorem targetOfObject_lowered : ∀ cs : List Node,
    targetOfObject (lineFeeds n source) (Node.loweredAll n cs) = targetOfObject source cs
  | [] => by rw [Node.loweredAll, targetOfObject, targetOfObject]
  | c :: cs => by
    rw [Node.loweredAll, targetOfObject, targetOfObject, targetText_lowered,
      targetOfObject_lowered, Node.label_lowered]
    rfl

theorem targetOfInner_lowered : ∀ cs : List Node,
    targetOfInner (lineFeeds n source) (Node.loweredAll n cs) = targetOfInner source cs
  | [] => by rw [Node.loweredAll, targetOfInner, targetOfInner]
  | c :: cs => by
    rw [Node.loweredAll, targetOfInner, targetOfInner, targetText_lowered,
      targetOfInner_lowered, Node.label_lowered]
    rfl

end

theorem positionalArguments_lowered (arguments : Node) :
    (arguments.lowered n).positionalArguments
      = arguments.positionalArguments.map fun a => (a.1.lowered n, a.2) := by
  unfold Node.positionalArguments
  rw [Node.children_lowered, List.zipIdx_map, List.filter_map]
  congr 2
  funext a
  simp [Node.isComment, Label.lowered]

theorem argumentRole_lowered (s : Site) :
    argumentRole (lineFeeds n source) (s.lowered n) = argumentRole source s := by
  unfold argumentRole
  rw [Site.parent?_lowered, Site.grandparent?_lowered]
  cases s.parent? with
  | none => rfl
  | some arguments =>
    cases s.grandparent? with
    | none => rfl
    | some call =>
      simp only [Option.map_some, Node.kind_lowered, Node.construct_lowered]
      cases call.construct with
      | call callee =>
        simp only [Construct.lowered, Node.construct_lowered]
        cases callee.construct with
        | member object property =>
          simp only [Node.text_lowered, positionalArguments_lowered,
            targetText_lowered, Site.number?_lowered, List.getElem?_map, List.head?_map,
            Option.map_map, Option.bind_map, Function.comp_def, Node.stringValue?_lowered]
        | _ => rfl
      | _ => rfl

theorem parameterLine_lowered (function : Node) :
    parameterLine (lineFeeds n source) (function.lowered n) = parameterLine source function := by
  unfold parameterLine
  rw [Node.child?_lowered, Node.child?_lowered]
  cases function.child? .parameters <;> cases function.child? .parameter <;> simp

end Naming

/-- **The heading of a class lower down is the same.** -/
theorem Site.classHeading?_lowered (s : Site) :
    (s.lowered n).classHeading? (lineFeeds n source) = s.classHeading? source := by
  unfold Site.classHeading?
  rw [Site.node_lowered, Node.construct_lowered, Naming.inferredName?_lowered]
  cases s.node.construct <;> rfl

/-- **The heading of a function lower down is the same.** -/
theorem Site.functionHeading?_lowered (s : Site) :
    (s.lowered n).functionHeading? (lineFeeds n source) = s.functionHeading? source := by
  have hname : ∀ form, (s.lowered n).functionName? (lineFeeds n source) form
      = s.functionName? source form := by
    intro form
    unfold Site.functionName?
    rw [Naming.methodName?_lowered, Naming.inferredName?_lowered, Naming.argumentRole_lowered]
    simp only [Site.node_lowered, Node.child?_lowered, Option.isNone_map]
  unfold Site.functionHeading?
  rw [Site.node_lowered, Node.construct_lowered, Naming.parameterLine_lowered]
  cases s.node.construct <;> simp [Construct.lowered, hname]

/-! ## Re-indented text -/

mutual

theorem Node.longLiterals_lowered : ∀ t : Node,
    (t.lowered n).longLiterals (lineFeeds n source)
      = (t.longLiterals source).map fun r => (r.1 + n, r.2 + n)
  | .mk l cs => by
    have htext := Node.text_lowered n source (.mk l cs)
    rw [Node.lowered] at htext ⊢
    rw [Node.longLiterals, Node.longLiterals, htext, Node.longLiteralsOfChildren_lowered]
    simp only [Label.lowered]
    split
    next => split <;> rfl
    next => split <;> rfl
    next => split <;> rfl
    next => rfl

theorem Node.longLiteralsOfChildren_lowered : ∀ cs : List Node,
    Node.longLiteralsOfChildren (lineFeeds n source) (Node.loweredAll n cs)
      = (Node.longLiteralsOfChildren source cs).map fun r => (r.1 + n, r.2 + n)
  | [] => by
    rw [Node.loweredAll, Node.longLiteralsOfChildren, Node.longLiteralsOfChildren, List.map_nil]
  | c :: cs => by
    rw [Node.loweredAll, Node.longLiteralsOfChildren, Node.longLiteralsOfChildren,
      List.map_append, Node.longLiterals_lowered, Node.longLiteralsOfChildren_lowered]

end

namespace Reindent

theorem inside_lowered (ranges : List (Nat × Nat)) (offset : Nat) :
    inside (ranges.map fun r => (r.1 + n, r.2 + n)) (offset + n) = inside ranges offset := by
  unfold inside
  rw [List.any_map]
  simp [Function.comp_def]

theorem tidyLines_lowered (ranges : List (Nat × Nat)) (indent : List Char) :
    ∀ (lines : List (List Char)) (first : Bool) (start : Nat),
      tidyLines (ranges.map fun r => (r.1 + n, r.2 + n)) indent first (start + n) lines
        = tidyLines ranges indent first start lines := by
  intro lines
  induction lines with
  | nil => intro first start; rfl
  | cons raw rest ih =>
    intro first start
    have hnext : start + n + Text.byteSize raw = start + Text.byteSize raw + n := by omega
    have hrest : start + Text.byteSize raw + n + 1 = start + Text.byteSize raw + 1 + n := by omega
    rw [tidyLines, tidyLines, hnext, hrest, ih]
    unfold tidyLine
    rw [hnext, inside_lowered, inside_lowered]

/-- The line of an offset is the same behind line feeds, the first line too: there the line feeds
end where it starts. -/
theorem lineAt_lowered {offset : Nat} {before : List Char}
    (h : Text.takeBytes offset source = some before) :
    lineAt (lineFeeds n source) (offset + n) = lineAt source offset := by
  have hfeeds : ∀ cs : List Char, (cs ++ List.replicate n '\n').takeWhile (· != '\n')
      = cs.takeWhile (· != '\n') := by
    intro cs
    induction cs with
    | nil => cases n <;> simp [List.replicate_succ]
    | cons c cs ih => rw [List.cons_append, List.takeWhile_cons, List.takeWhile_cons, ih]
  have hle := (List.takeWhile_sublist (· != '\n') (l := before.reverse)).length_le
  rw [List.length_reverse] at hle
  unfold lineAt
  rw [Text.takeBytes_lineFeeds, h]
  show (lineFeeds n source).drop _ = source.drop _
  rw [lineFeeds, lineFeeds, List.reverse_append, List.reverse_replicate, hfeeds,
    List.length_append, List.length_replicate, Nat.add_sub_assoc hle, List.drop_append,
    List.length_replicate, Nat.add_sub_cancel_left,
    List.drop_eq_nil_of_le (by rw [List.length_replicate]; exact Nat.le_add_right _ _),
    List.nil_append]

end Reindent

/-- **The re-indented text of a node lower down is the same.** -/
theorem Node.reindented?_lowered (t : Node) :
    (t.lowered n).reindented? (lineFeeds n source) = t.reindented? source := by
  unfold Node.reindented?
  rw [Node.text_lowered, Node.label_lowered, Node.longLiterals_lowered]
  by_cases hnone : (t.label.faulty || t.label.missing || (t.text source).isEmpty) = true
  · simp only [Label.lowered, hnone, if_true]
  · -- a text that is not empty was cut out, so that there is a text before it
    have hbefore : ∃ before, Text.takeBytes t.label.start source = some before := by
      cases hcut : Text.cut source t.label.start t.label.stop with
      | none => exact absurd (by simp [Node.text, hcut]) hnone
      | some text =>
        unfold Text.cut at hcut
        split at hcut
        next =>
          obtain ⟨rest, hrest, -⟩ := Option.bind_eq_some_iff.mp hcut
          exact Text.exists_takeBytes hrest
        next => exact absurd hcut (by simp)
    obtain ⟨before, hbefore⟩ := hbefore
    have hindent : Reindent.indentAt (lineFeeds n source) (t.label.start + n)
        = Reindent.indentAt source t.label.start := by
      unfold Reindent.indentAt
      rw [Reindent.lineAt_lowered n source hbefore]
    simp only [Label.lowered, hnone, Reindent.tidyLines_lowered, hindent]

end Reading

end CallVicinity
