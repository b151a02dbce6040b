import Mathlib.Order.Bounds.Basic
import CallVicinity.Proofs.Graph.IdForms
import CallVicinity.Proofs.Tree.Lowered

/-!
# Graphs lower down

Where in a file the code stands does not matter for its graph:

> `Graph.build_lineFeeds`: with `n` line feeds put in front of the text, the graph is the same,
> except that all extents are `n` lines lower, and so are the ids that tell an extent.

The two runs are followed side by side. A draft lower down (`Draft.lowered`) has the same records,
at sites lower down and with the ids of the lower extents. Every pass keeps this
(`Draft.run_lowered`), since what passes read off a site is the same, and freezing does
(`Draft.freeze_lowered`), since the ranges keep their order. An id is in use lower down exactly if
it was in use before: the two forms of ids cannot be mistaken for each other, and extents can be
read back from them.
-/

namespace CallVicinity

open Text (lineFeeds)

/-! ## Extents and ids -/

/-- The extent `n` lines lower. -/
def Span.lowered (n : Nat) (s : Span) : Span :=
  { s with startLine := s.startLine + n, endLine := s.endLine + n }

theorem Span.lowered_injective (n : Nat) : Function.Injective (Span.lowered n) := by
  intro s t h
  cases s
  cases t
  simp only [Span.lowered, Span.mk.injEq] at h ⊢
  omega

theorem Label.span_lowered (n : Nat) (source : List Char) (l : Label) :
    (l.lowered n).span (lineFeeds n source) = (l.span source).lowered n := by
  unfold Label.span Label.lowered
  simp only [Text.position_lineFeeds]
  simp only [Text.Position.lowered, Span.lowered, Nat.add_right_comm]

namespace Draft

/-- The id lower down: one that tells the extent tells the lower one, one with a number stays. -/
def loweredId (n : Nat) (kind : DeclKind) (span : Span) (id : String) : String :=
  if id = spanId kind span then spanId kind (span.lowered n) else id

section Ids

variable {n : Nat} {kind kind' : DeclKind} {span span' : Span} {id : String}

theorem loweredId_spanId :
    loweredId n kind span (spanId kind span) = spanId kind (span.lowered n) :=
  if_pos rfl

theorem loweredId_numberId (m : Nat) :
    loweredId n kind span (numberId kind m) = numberId kind m :=
  if_neg (spanId_ne_numberId kind kind span m).symm

/-- An id lower down tells a lower extent exactly if the id tells the extent. -/
theorem IdForm.loweredId_eq_spanId (h : IdForm kind span id) :
    loweredId n kind span id = spanId kind' (span'.lowered n) ↔ id = spanId kind' span' := by
  cases h with
  | extent =>
    rw [loweredId_spanId, spanId_inj, spanId_inj, (Span.lowered_injective n).eq_iff]
  | number m =>
    rw [loweredId_numberId]
    exact iff_of_false (spanId_ne_numberId _ _ _ _).symm (spanId_ne_numberId _ _ _ _).symm

/-- An id lower down has a number exactly if the id has it. -/
theorem IdForm.loweredId_eq_numberId (h : IdForm kind span id) {m : Nat} :
    loweredId n kind span id = numberId kind' m ↔ id = numberId kind' m := by
  cases h with
  | extent =>
    rw [loweredId_spanId]
    exact iff_of_false (spanId_ne_numberId _ _ _ _) (spanId_ne_numberId _ _ _ _)
  | number k => rw [loweredId_numberId]

end Ids

end Draft

/-! ## Recording lower down -/

/-- The record of a declaration `n` lines lower. -/
def Record.lowered (n : Nat) (source : List Char) (r : Record) : Record :=
  { r with
    site := r.site.lowered n
    id := Draft.loweredId n r.heading.kind (r.site.node.label.span source) r.id }

namespace Draft

/-- The draft with all records `n` lines lower. -/
def lowered (n : Nat) (source : List Char) (d : Draft) : Draft :=
  { d with records := d.records.map (Record.lowered n source) }

section Lowered

variable (n : Nat) {source : List Char} {d : Draft}

/-- An id is in use lower down exactly if the id that it comes from is in use. -/
theorem mem_ids_lowered (hd : d.Identified source) {x y : String}
    (hxy : ∀ kind span id, IdForm kind span id → (loweredId n kind span id = y ↔ id = x)) :
    y ∈ (d.lowered n source).ids ↔ x ∈ d.ids := by
  unfold ids lowered
  rw [Array.toList_map, List.map_map, List.mem_map, List.mem_map]
  refine exists_congr fun r => and_congr_right fun hr => ?_
  exact hxy _ _ _ (hd r hr)

/-- The id by extent lower down, if a node can have one. -/
theorem spanId?_lowered (hd : d.Identified source) (l : Label) (kind : DeclKind) :
    (d.lowered n source).spanId? (lineFeeds n source) (l.lowered n) kind
      = (d.spanId? source l kind).map (loweredId n kind (l.span source)) := by
  have hmem : spanId kind ((l.span source).lowered n) ∈ (d.lowered n source).ids
      ↔ spanId kind (l.span source) ∈ d.ids :=
    mem_ids_lowered n hd fun _ _ _ h => h.loweredId_eq_spanId
  unfold spanId?
  rw [Label.span_lowered]
  simp only [Label.lowered, Nat.add_le_add_iff_right, hmem]
  split
  next => rfl
  next =>
    split
    next => rfl
    next => rw [Option.map_some, loweredId_spanId]

/-- The first free number is the same lower down. -/
theorem freeNumber_lowered (hd : d.Identified source) (kind : DeclKind) (k : Nat) :
    freeNumber kind (d.lowered n source).ids k = freeNumber kind d.ids k := by
  have hmem : ∀ m, numberId kind m ∈ (d.lowered n source).ids ↔ numberId kind m ∈ d.ids :=
    fun m => mem_ids_lowered n hd fun _ _ _ h => h.loweredId_eq_numberId
  have hleast := freeNumber_isLeast kind (d.lowered n source).ids k
  simp only [hmem] at hleast
  exact hleast.unique (freeNumber_isLeast kind d.ids k)

/-- **Recording lower down is recording, lower down.** -/
theorem record_lowered (hd : d.Identified source) (s : Site) (h : Heading) :
    (d.lowered n source).record (lineFeeds n source) (s.lowered n) h
      = (d.record source s h).lowered n source := by
  unfold record
  rw [Site.node_lowered, Node.label_lowered, spanId?_lowered n hd]
  cases d.spanId? source s.node.label h.kind with
  | some id => simp only [Option.map_some, lowered, Array.map_push, Record.lowered]
  | none =>
    simp only [Option.map_none, freeNumber_lowered n hd]
    simp only [lowered, Array.map_push, Record.lowered, loweredId_numberId]

/-- A recording pass lower down is the pass, lower down, if it finds the same headings there. -/
theorem recordAll_lowered {heading? heading?' : Site → Option Heading}
    (hsame : ∀ s, heading?' (s.lowered n) = heading? s) (sites : List Site) :
    ∀ {d : Draft}, d.Identified source →
      (d.lowered n source).recordAll (lineFeeds n source) heading?' (sites.map (Site.lowered n))
        = (d.recordAll source heading? sites).lowered n source := by
  induction sites with
  | nil => intro d _; rfl
  | cons s sites ih =>
    intro d hd
    unfold recordAll at ih ⊢
    rw [List.map_cons, List.foldl_cons, List.foldl_cons, hsame]
    cases heading? s with
    | none => exact ih hd
    | some h =>
      show List.foldl _ ((d.lowered n source).record (lineFeeds n source) (s.lowered n) h) _ = _
      rw [record_lowered n hd]
      exact ih (record_identified hd s h)

/-! ## Linking lower down -/

theorem empty_lowered : empty.lowered n source = empty := by
  simp [lowered, empty]

theorem kindAt?_lowered (slot : Nat) : (d.lowered n source).kindAt? slot = d.kindAt? slot := by
  unfold kindAt? lowered
  rw [Array.getElem?_map, Option.map_map]
  rfl

theorem recorded_lowered : (d.lowered n source).recorded = d.recorded := by
  unfold recorded lowered
  rw [Array.toList_map, List.zipIdx_map, List.map_map]
  rfl

theorem slotsNamed_lowered (name : String) :
    (d.lowered n source).slotsNamed name = d.slotsNamed name := by
  unfold slotsNamed lowered
  rw [Array.toList_map, List.zipIdx_map, List.filter_map, List.map_map]
  rfl

/-- The same declaration is around an address. -/
theorem enclosing?_lowered (a : Address) : (d.lowered n source).enclosing? a = d.enclosing? a := by
  unfold enclosing? slotsAbove
  simp only [recorded_lowered, kindAt?_lowered]

theorem edgesAt_lowered (s : Site) :
    (d.lowered n source).edgesAt (lineFeeds n source) (s.lowered n) = d.edgesAt source s := by
  unfold edgesAt
  simp only [Site.callKey?_lowered, Site.address_lowered, enclosing?_lowered, slotsNamed_lowered]

theorem linkOwners_lowered : (d.lowered n source).linkOwners = d.linkOwners.lowered n source := by
  simp only [linkOwners, enclosing?_lowered]
  simp only [lowered, Array.map_map]
  rfl

theorem hasCall_lowered (caller callee : Nat) :
    (d.lowered n source).hasCall caller callee = d.hasCall caller callee := by
  unfold hasCall lowered
  rw [Array.getElem?_map, Option.any_map]
  rfl

theorem addEdge_lowered (st : Draft × Nat) (e : Nat × Nat) :
    addEdge (st.1.lowered n source, st.2) e
      = ((addEdge st e).1.lowered n source, (addEdge st e).2) := by
  unfold addEdge
  simp only [hasCall_lowered]
  split
  next => rfl
  next =>
    unfold lowered
    dsimp only
    rw [map_modify, map_modify]
    · intro r; rfl
    · intro r; rfl

theorem linkCalls_lowered (sites : List Site) :
    (d.lowered n source).linkCalls (lineFeeds n source) (sites.map (Site.lowered n))
      = ((d.linkCalls source sites).1.lowered n source, (d.linkCalls source sites).2) := by
  unfold linkCalls
  rw [List.flatMap_map]
  simp only [edgesAt_lowered]
  let below : Draft × Nat → Draft × Nat := fun st => (st.1.lowered n source, st.2)
  show List.foldl addEdge (below (d, 0)) _ = below _
  exact List.foldl_hom below (addEdge_lowered n)

/-- **A pass lower down is the pass, lower down.** -/
theorem run_lowered (hd : d.Identified source) (sites : List Site) : ∀ p : Pass,
    (d.lowered n source).run (lineFeeds n source) (sites.map (Site.lowered n)) p
      = (d.run source sites p).lowered n source
  | .classes => recordAll_lowered n (fun s => s.classHeading?_lowered n source) sites hd
  | .functions => recordAll_lowered n (fun s => s.functionHeading?_lowered n source) sites hd
  | .ownership => linkOwners_lowered n
  | .calls => congrArg Prod.fst (linkCalls_lowered n sites)

/-- **A run lower down is the run, lower down.** -/
theorem runAll_lowered (sites : List Site) : ∀ (passes : List Pass) {d : Draft},
    d.Identified source →
      (d.lowered n source).runAll (lineFeeds n source) (sites.map (Site.lowered n)) passes
        = (d.runAll source sites passes).lowered n source := by
  intro passes
  induction passes with
  | nil => intro d _; rfl
  | cons p passes ih =>
    intro d hd
    show (((d.lowered n source).run (lineFeeds n source) (sites.map (Site.lowered n)) p).runAll
      (lineFeeds n source) (sites.map (Site.lowered n)) passes) = _
    rw [run_lowered n hd]
    exact ih (run_identified hd p)

end Lowered

end Draft

/-! ## Freezing lower down -/

/-- The declaration `n` lines lower. -/
def Declaration.lowered (n : Nat) (d : Declaration) : Declaration :=
  { d with
    id := Draft.loweredId n d.kind d.span d.id
    span := d.span.lowered n }

/-- The graph with all declarations `n` lines lower. -/
def Graph.lowered (n : Nat) (g : Graph) : Graph :=
  ⟨g.nodes.map (Declaration.lowered n)⟩

namespace Draft

section Freeze

variable (n : Nat) (source : List Char)

/-- A record `n` lines lower, in the same slot. -/
def loweredSlot (r : Record × Nat) : Record × Nat :=
  (r.1.lowered n source, r.2)

theorem inOrder_lowered (a b : Record × Nat) :
    inOrder a b = inOrder (loweredSlot n source a) (loweredSlot n source b) := by
  rw [Bool.eq_iff_iff]
  simp only [inOrder, Bool.or_eq_true, Bool.and_eq_true, decide_eq_true_eq, beq_iff_eq]
  simp only [loweredSlot, Record.lowered, Site.node_lowered, Node.label_lowered, Label.lowered]
  omega

/-- Source order is the same lower down. -/
theorem ordered_lowered (d : Draft) :
    (d.lowered n source).ordered = d.ordered.map (loweredSlot n source) := by
  unfold ordered
  rw [List.map_mergeSort fun a _ b _ => inOrder_lowered n source a b, lowered, Array.toList_map,
    List.zipIdx_map]
  rfl

theorem position_lowered (order : List (Record × Nat)) :
    position (order.map (loweredSlot n source)) = position order := by
  funext slot
  unfold position
  rw [List.findIdx_map]
  rfl

theorem declaration_lowered (order : List (Record × Nat)) (i : Nat) (r : Record) :
    declaration (lineFeeds n source) (order.map (loweredSlot n source)) i (r.lowered n source)
      = (declaration source order i r).lowered n := by
  have howners : ownerIndexes (order.map (loweredSlot n source)) = ownerIndexes order := by
    unfold ownerIndexes
    rw [List.map_map, position_lowered]
    rfl
  unfold declaration Declaration.lowered
  simp only [howners, renumbered, position_lowered, Record.lowered, Site.node_lowered,
    Node.label_lowered, Label.span_lowered, Node.text_lowered, Node.reindented?_lowered]

/-- **Freezing lower down is freezing, lower down.** -/
theorem freeze_lowered (d : Draft) :
    (d.lowered n source).freeze (lineFeeds n source) = (d.freeze source).lowered n := by
  simp only [freeze, Graph.lowered]
  rw [ordered_lowered, List.zipIdx_map, List.map_map, List.map_toArray, List.map_map]
  refine congrArg (fun ns => Graph.mk ns.toArray) (List.map_congr_left fun r _ => ?_)
  exact declaration_lowered n source d.ordered r.2 r.1.1

end Freeze

end Draft

/-! ## The graph of a text lower down -/

namespace Graph

/-- The graph of a text behind line feeds is the graph of the text, lower down. -/
theorem build_lowered (n : Nat) (source : List Char) (tree : Node) :
    build (lineFeeds n source) (tree.lowered n) = (build source tree).lowered n := by
  have hrun := Draft.runAll_lowered n tree.sites Pass.usual (Draft.empty_identified source)
  rw [Draft.empty_lowered] at hrun
  unfold build
  rw [Node.sites_lowered, ← Draft.freeze_lowered, hrun]

theorem node?_lowered (n : Nat) (g : Graph) (i : Nat) :
    (g.lowered n).node? i = (g.node? i).map (Declaration.lowered n) :=
  Array.getElem?_map

theorem size_lowered (n : Nat) (g : Graph) : (g.lowered n).size = g.size :=
  Array.size_map

theorem roots_lowered (n : Nat) (g : Graph) : (g.lowered n).roots = g.roots := by
  unfold roots indexesWhere lowered
  rw [Array.toList_map, List.zipIdx_map, List.filter_map, List.map_map]
  rfl

/-- **Where in a file the code stands does not matter.** With `n` line feeds in front of a text, the
graph has the same declarations in the same order, with the same roots, and every declaration is the
same up to its extent, which is `n` lines lower, and its id: if the id tells the extent, it tells
the lower one, and if it has a number, it stays. -/
theorem build_lineFeeds (n : Nat) (source : List Char) (tree : Node) :
    let g := build source tree
    let g' := build (List.replicate n '\n' ++ source) (tree.lowered n)
    g'.size = g.size ∧ g'.roots = g.roots ∧
      ∀ i d, g.node? i = some d → ∃ id,
        g'.node? i = some { d with id := id, span := d.span.lowered n } ∧
        (d.id = Draft.spanId d.kind d.span ∧ id = Draft.spanId d.kind (d.span.lowered n) ∨
          ∃ m, d.id = Draft.numberId d.kind m ∧ id = d.id) := by
  intro g g'
  have hg' : g' = g.lowered n := build_lowered n source tree
  rw [hg']
  refine ⟨g.size_lowered n, g.roots_lowered n, ?_⟩
  intro i d hd
  refine ⟨Draft.loweredId n d.kind d.span d.id, by rw [node?_lowered, hd]; rfl, ?_⟩
  have hform : Draft.IdForm d.kind d.span d.id :=
    (Draft.runAll_identified Pass.usual (Draft.empty_identified source)).freeze hd
  generalize d.id = id at hform
  cases hform with
  | extent => exact Or.inl ⟨rfl, Draft.loweredId_spanId⟩
  | number m => exact Or.inr ⟨m, rfl, Draft.loweredId_numberId m⟩

end Graph

end CallVicinity
