import CallVicinity.Declaration.Naming
import CallVicinity.IndexSet

/-!
# Drafts

A draft is what is known of the declarations of a tree while the passes over it run: the recorded
declarations in the order of recording, each with its owner so far, with what it calls so far and
with what calls it so far, all by slot, the number of the record. Recording a node again adds a
record; the latest one stands for the node.
-/

namespace CallVicinity

/-- The extent of a declaration: lines count from one, columns are bytes and count from zero. -/
structure Span where
  startLine : Nat
  startColumn : Nat
  endLine : Nat
  endColumn : Nat
deriving DecidableEq, Repr, Inhabited

/-- The extent of a node with the given label. -/
def Label.span (l : Label) (source : List Char) : Span :=
  let first := Text.position source l.start
  let last := Text.position source l.stop
  ⟨first.row + 1, first.column, last.row + 1, last.column⟩

/-- A recorded declaration. -/
structure Record where
  site : Site
  id : String
  heading : Heading
  /-- The slot of the enclosing declaration. -/
  owner : Option Nat
  /-- The slots of the declarations that it calls. -/
  calls : IndexSet
  /-- The slots of the declarations that call it. -/
  calledBy : IndexSet

/-- The declarations recorded so far. -/
structure Draft where
  records : Array Record
  /-- How many ids were made up without a span. -/
  numbered : Nat

namespace Draft

/-- The draft before any pass. -/
def empty : Draft := ⟨#[], 0⟩

/-- The ids given so far. -/
def ids (d : Draft) : List String :=
  d.records.toList.map (·.id)

/-- The id of a declaration of a kind with an extent. -/
def spanId (kind : DeclKind) (s : Span) : String :=
  kind.tag ++ "@" ++ s.startLine.repr ++ ":" ++ s.startColumn.repr ++ "-" ++ s.endLine.repr ++
    ":" ++ s.endColumn.repr

/-- The id of a declaration of a kind with a number. -/
def numberId (kind : DeclKind) (n : Nat) : String :=
  kind.tag ++ "#" ++ n.repr

/-- The first number from `n` on whose id is not among the used ones. -/
def freeNumber (kind : DeclKind) (used : List String) (n : Nat) : Nat :=
  if h : numberId kind n ∈ used then freeNumber kind (used.erase (numberId kind n)) (n + 1) else n
termination_by used.length
decreasing_by
  rw [List.length_erase_of_mem h]
  have := List.length_pos_of_mem h
  omega

/-- The id by extent that a node can have, if its place in the text tells it apart from the
declarations recorded before. -/
def spanId? (d : Draft) (source : List Char) (l : Label) (kind : DeclKind) : Option String :=
  if l.missing || l.stop ≤ l.start then none
  else
    let id := spanId kind (l.span source)
    if id ∈ d.ids then none else some id

/-- The draft with one more declaration, which has no owner, calls nothing and is called by
nothing. -/
def record (d : Draft) (source : List Char) (s : Site) (h : Heading) : Draft :=
  match d.spanId? source s.node.label h.kind with
  | some id => { d with records := d.records.push ⟨s, id, h, none, ∅, ∅⟩ }
  | none =>
    let n := freeNumber h.kind d.ids (d.numbered + 1)
    { d with records := d.records.push ⟨s, numberId h.kind n, h, none, ∅, ∅⟩, numbered := n }

/-- The addresses with a record and their slots, the latest record first. -/
def recorded (d : Draft) : List (Address × Nat) :=
  (d.records.toList.zipIdx.map fun r => (r.1.site.address, r.2)).reverse

/-- The kind of the declaration in a slot. -/
def kindAt? (d : Draft) (slot : Nat) : Option DeclKind :=
  d.records[slot]?.map (·.heading.kind)

/-- The slots of the recorded nodes above an address, nearest first. -/
def slotsAbove (d : Draft) (a : Address) : List Nat :=
  let table := d.recorded
  a.above.filterMap fun b => table.lookup b

/-- The declaration around an address: the nearest function, arrow or method above it, or where
there is none the nearest class. -/
def enclosing? (d : Draft) (a : Address) : Option Nat :=
  let slots := d.slotsAbove a
  (slots.find? fun slot => d.kindAt? slot != some .classDef).or slots.head?

end Draft

end CallVicinity
