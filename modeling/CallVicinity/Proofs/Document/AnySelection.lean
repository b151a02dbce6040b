import CallVicinity.Proofs.Document.Growth

/-!
# Documents of arbitrary selections

A selection that no request asked for can hold anything: its sets need not fit together, and what is
in them can lie past the end of the graph. A document looks declarations up without asking, so that
it has to be seen where the indexes come from that it looks up. Those of the outlines come from the
forest, and those of the references from the call edges; the sets of the selection are only asked
whether they hold them. Only the seeds are looked up themselves:

> `Graph.build_document_any`: a selection has a document exactly if its seeds are declarations of
> the graph, and what the other sets hold past the end cannot be seen in the outlines.

Two selections that hold the same declarations of the graph (`Selection.AgreeOn`) are asked the same
questions by each step on the way to a document and give the same answers.
-/

namespace CallVicinity

/-- The same declarations of the graph are in each set of the two selections. What else is in them
may differ. -/
structure Selection.AgreeOn (g : Graph) (s s' : Selection) : Prop where
  fullDetail : ∀ i < g.size, i ∈ s.fullDetail ↔ i ∈ s'.fullDetail
  context : ∀ i < g.size, i ∈ s.context ↔ i ∈ s'.context
  included : ∀ i < g.size, i ∈ s.included ↔ i ∈ s'.included

theorem Selection.AgreeOn.detail_eq {g : Graph} {s s' : Selection} (h : s.AgreeOn g s') {i : Nat}
    (hi : i < g.size) : s.detail i = s'.detail i := by
  unfold Selection.detail
  simp only [h.fullDetail i hi, h.context i hi]

/-! ## The forest -/

mutual

/-- Restricting a tree asks for the indexes in it only. -/
theorem Tree.restrict_congr {keep keep' : IndexSet} : ∀ t : Tree,
    (∀ i ∈ t.indexes, i ∈ keep ↔ i ∈ keep') → t.restrict keep = t.restrict keep'
  | .node i ts => by
    intro h
    rw [Tree.indexes] at h
    rw [Tree.restrict, Tree.restrict,
      Forest.restrict_congr ts fun j hj => h j (List.mem_cons_of_mem _ hj)]

theorem Forest.restrict_congr {keep keep' : IndexSet} : ∀ ts : List Tree,
    (∀ i ∈ Tree.indexesAll ts, i ∈ keep ↔ i ∈ keep') →
      Forest.restrict keep ts = Forest.restrict keep' ts
  | [] => by
    intro _
    rfl
  | t :: ts => by
    intro h
    rw [Tree.indexesAll] at h
    have htop : t.index ∈ t.indexes := by
      obtain ⟨i, children⟩ := t
      rw [Tree.indexes]
      exact List.mem_cons_self
    rw [Forest.restrict, Forest.restrict,
      Tree.restrict_congr t fun j hj => h j (List.mem_append_left _ hj),
      Forest.restrict_congr ts fun j hj => h j (List.mem_append_right _ hj)]
    simp only [h t.index (List.mem_append_left _ htop)]

end

namespace Graph

variable {g : Graph} {s s' : Selection} {o : Options}

/-! ## The outlines -/

/-- References to declarations of the graph depend on which of these are included. -/
theorem references?_congr (h : s.AgreeOn g s') (mode : RefMode) {targets : IndexSet}
    (ht : ∀ j ∈ targets, j < g.size) :
    g.references? s mode targets = g.references? s' mode targets := by
  unfold references?
  congr 1
  refine List.filter_congr fun j hj => ?_
  simp only [h.included j (ht j hj)]

theorem EdgesInside.facts?_congr (he : g.EdgesInside) (h : s.AgreeOn g s') (o : Options) {i : Nat}
    (hi : i < g.size) : g.facts? s o i = g.facts? s' o i := by
  obtain ⟨n, hn⟩ := exists_node? hi
  have hcalls := references?_congr h o.refMode fun j hj => he i j (Or.inl ⟨n, hn, hj⟩)
  have hcalledBy := references?_congr h o.refMode fun j hj => he i j (Or.inr ⟨n, hn, hj⟩)
  unfold facts?
  rw [hn, h.detail_eq hi]
  cases hd : s'.detail i with
  | full =>
    show (g.references? s o.refMode n.calls >>= fun calls => _) = _
    rw [hcalls, hcalledBy]
    rfl
  | context => rfl
  | ancestor => rfl

mutual

/-- The outline of a tree is made of the facts of the declarations in it. -/
theorem outline?_congr : ∀ t : Tree, (∀ i ∈ t.indexes, g.facts? s o i = g.facts? s' o i) →
    g.outline? s o t = g.outline? s' o t
  | .node i ts => by
    intro h
    rw [Tree.indexes] at h
    rw [outline?, outline?, h i List.mem_cons_self,
      outlines?_congr ts fun j hj => h j (List.mem_cons_of_mem _ hj)]

theorem outlines?_congr : ∀ ts : List Tree,
    (∀ i ∈ Tree.indexesAll ts, g.facts? s o i = g.facts? s' o i) →
      g.outlines? s o ts = g.outlines? s' o ts
  | [] => by
    intro _
    rw [outlines?, outlines?]
  | t :: ts => by
    intro h
    rw [Tree.indexesAll] at h
    rw [outlines?, outlines?, outline?_congr t fun j hj => h j (List.mem_append_left _ hj),
      outlines?_congr ts fun j hj => h j (List.mem_append_right _ hj)]

end

variable {depth : Nat → Nat}

/-- **What is projected depends on the declarations of the graph alone.** -/
theorem Owned.project?_congr (hg : g.Owned depth) (he : g.EdgesInside) (h : s.AgreeOn g s')
    (o : Options) : g.project? s o = g.project? s' o := by
  obtain ⟨f, hf, hroots, hall⟩ := hg.exists_forest
  unfold project?
  rw [hf]
  show g.outlines? s o (Forest.restrict s.included f)
    = g.outlines? s' o (Forest.restrict s'.included f)
  rw [Forest.restrict_congr f fun i hi => h.included i (hg.indexesAll_lt hroots hall hi)]
  refine outlines?_congr _ fun i hi => ?_
  exact he.facts?_congr h o (hg.indexesAll_lt hroots hall (Tree.indexesAll_restrict_subset _ f hi))

/-! ## The document -/

/-- The seeds of a selection with a document are declarations of the graph. -/
theorem document?_seeds_lt {origin : Origin} {doc : Document}
    (h : g.document? origin s o = some doc) {i : Nat} (hi : i ∈ s.seeds) : i < g.size := by
  obtain ⟨ns, hns, -⟩ := document?_eq_some h
  obtain ⟨n, -, hn⟩ := exists_mem_zip (forall₂_of_mapM hns) hi
  exact node?_lt hn

/-- **Documents of arbitrary selections.** No look-up fails exactly if every seed is a declaration
of the graph; the other sets may hold what they like. The outlines exist whatever the seeds are, and
they are the same for all selections that agree on the declarations of the graph. -/
theorem build_document_any (source : List Char) (tree : Node) (origin : Origin) (s : Selection)
    (o : Options) :
    let g := Graph.build source tree
    ((∃ doc, g.document? origin s o = some doc) ↔ ∀ i ∈ s.seeds, i < g.size) ∧
    ∃ nodes, ∀ s', s.AgreeOn g s' → g.project? s' o = some nodes ∧
      ∀ doc, g.document? origin s' o = some doc → doc.nodes = nodes := by
  intro g
  obtain ⟨depth, hg⟩ := build_owned source tree
  have he := (build_paired source tree).edgesInside
  obtain ⟨nodes, hnodes⟩ := hg.exists_project he s o
  refine ⟨⟨fun h i hi => ?_, fun h => ?_⟩, nodes, fun s' hs' => ?_⟩
  · obtain ⟨doc, hdoc⟩ := h
    exact document?_seeds_lt hdoc hi
  · obtain ⟨doc, hdoc, -⟩ := exists_document_of_project h origin hnodes
    exact ⟨doc, hdoc⟩
  · have hproject : g.project? s' o = some nodes := by
      rw [← hg.project?_congr he hs' o]
      exact hnodes
    refine ⟨hproject, fun doc hdoc => ?_⟩
    obtain ⟨-, -, -, hdoc', -⟩ := document?_eq_some hdoc
    rw [hproject] at hdoc'
    exact (Option.some.inj hdoc').symm

end Graph

end CallVicinity
