import CallVicinity.Analysis
import CallVicinity.Proofs.Graph.Callers
import CallVicinity.Proofs.Selection.Coherent

/-!
# What a document shows

Between the sets of a selection and the outlines of a document stand four steps: the forest of all
declarations, its restriction to what is included, the outline of every tree that is left, and the
facts of every declaration in it. `Outline.flatten` reads the last two back: an outline, followed by
the outlines inside it. Then

> `Graph.exists_outlines`: the flattened outlines of trees are the facts of their declarations, in
> the same order.

The restriction drops whole subtrees, so that a declaration below one that is not included would be
lost. None is, since what is included is closed under owners, and the flattened document shows every
included declaration exactly once (`Graph.Owned.restrict_perm`).
-/

namespace CallVicinity

mutual

/-- What an outline shows: the declaration itself, followed by what is inside it. -/
def Outline.flatten : Outline → List Facts
  | .mk facts children _ => facts :: Outline.flattenInside children

/-- What is shown inside an outline, which may not show it at all. -/
def Outline.flattenInside : Option (List Outline) → List Facts
  | none => []
  | some os => Outline.flattenAll os

/-- What outlines side by side show. -/
def Outline.flattenAll : List Outline → List Facts
  | [] => []
  | o :: os => o.flatten ++ Outline.flattenAll os

end

/-! ## The facts of one declaration -/

theorem Selection.detail_eq_full {s : Selection} {i : Nat} :
    s.detail i = .full ↔ i ∈ s.fullDetail := by
  unfold Selection.detail
  by_cases hf : i ∈ s.fullDetail
  · simp [hf]
  · by_cases hc : i ∈ s.context <;> simp [hf, hc]

theorem Selection.detail_eq_context {s : Selection} {i : Nat} :
    s.detail i = .context ↔ i ∈ s.context ∧ i ∉ s.fullDetail := by
  unfold Selection.detail
  by_cases hf : i ∈ s.fullDetail
  · simp [hf]
  · by_cases hc : i ∈ s.context <;> simp [hf, hc]

theorem Selection.Coherent.detail_eq_ancestor {s : Selection} {g : Graph} (h : s.Coherent g)
    {i : Nat} : s.detail i = .ancestor ↔ i ∉ s.context := by
  unfold Selection.detail
  by_cases hf : i ∈ s.fullDetail
  · simp [hf, h.full_context i hf]
  · by_cases hc : i ∈ s.context <;> simp [hf, hc]

namespace Graph

variable {g : Graph} {s : Selection} {o : Options}

/-- References to declarations inside the graph can all be written. -/
theorem exists_references (mode : RefMode) {targets : IndexSet}
    (ht : ∀ j ∈ targets, j < g.size) : ∃ refs, g.references? s mode targets = some refs := by
  refine exists_mapM_of_some ?_
  intro j hj
  obtain ⟨m, hm⟩ := exists_node? (ht j (List.mem_filter.mp hj).1)
  exact ⟨m.reference mode, by rw [hm]; rfl⟩

/-- Facts `f` show declaration `i`: under its id, which can be left out where the detail is not
full, with the detail that the sets of the selection give to it, and with its text and its calls
exactly if that detail is full. -/
structure ShownAs (g : Graph) (s : Selection) (o : Options) (i : Nat) (f : Facts) : Prop where
  facts : g.facts? s o i = some f
  id : ∃ n, g.node? i = some n ∧ (f.id = some n.id ∨ f.id = none ∧ f.detail ≠ .full)
  full : f.detail = .full ↔ i ∈ s.fullDetail
  context : f.detail = .context ↔ i ∈ s.context ∧ i ∉ s.fullDetail
  ancestor : f.detail = .ancestor ↔ i ∈ s.included ∧ i ∉ s.context
  source : f.source.isSome ↔ f.detail = .full
  calls : f.calls.isSome ↔ f.detail = .full
  calledBy : f.calledBy.isSome ↔ f.detail = .full

/-- Every declaration of the graph has facts, with the detail that the selection gives to it. -/
theorem EdgesInside.exists_facts (he : g.EdgesInside) (s : Selection) (o : Options) {i : Nat}
    (hi : i < g.size) :
    ∃ f, g.facts? s o i = some f ∧ f.detail = s.detail i ∧
      (∃ n, g.node? i = some n ∧ (f.id = some n.id ∨ f.id = none ∧ f.detail ≠ .full)) ∧
      (f.source.isSome ↔ f.detail = .full) ∧ (f.calls.isSome ↔ f.detail = .full) ∧
      (f.calledBy.isSome ↔ f.detail = .full) := by
  obtain ⟨n, hn⟩ := exists_node? hi
  obtain ⟨calls, hcalls⟩ := exists_references (s := s) o.refMode
    fun j hj => he i j (Or.inl ⟨n, hn, hj⟩)
  obtain ⟨calledBy, hcalledBy⟩ := exists_references (s := s) o.refMode
    fun j hj => he i j (Or.inr ⟨n, hn, hj⟩)
  unfold facts?
  rw [hn]
  cases hd : s.detail i with
  | full => simp [hcalls, hcalledBy]
  | context =>
    -- the id is one of the fields that the options can leave out
    by_cases hid : StructuralField.id ∈ o.structuralFields <;>
      simp [Declaration.outlineFacts, hid]
  | ancestor =>
    by_cases hid : StructuralField.id ∈ o.structuralFields <;>
      simp [Declaration.outlineFacts, hid]

/-- Every included declaration is shown. -/
theorem EdgesInside.exists_shownAs (he : g.EdgesInside) (hs : s.Coherent g) (o : Options) {i : Nat}
    (hi : i < g.size) (hincluded : i ∈ s.included) : ∃ f, g.ShownAs s o i f := by
  obtain ⟨f, hf, hdetail, hid, hsource, hcalls, hcalledBy⟩ := he.exists_facts s o hi
  refine ⟨f, hf, hid, ?_, ?_, ?_, hsource, hcalls, hcalledBy⟩
  · rw [hdetail]
    exact Selection.detail_eq_full
  · rw [hdetail]
    exact Selection.detail_eq_context
  · rw [hdetail, hs.detail_eq_ancestor]
    exact ⟨fun hc => ⟨hincluded, hc⟩, fun h => h.2⟩

/-! ## The outlines of trees -/

mutual

/-- The outline of a tree of declarations with facts shows their facts in order. -/
theorem exists_outline {P : Nat → Facts → Prop} (ho : o.includeChildren = true) :
    ∀ t : Tree, (∀ i ∈ t.indexes, ∃ f, g.facts? s o i = some f ∧ P i f) →
      ∃ out, g.outline? s o t = some out ∧ List.Forall₂ P t.indexes out.flatten
  | .node i ts => by
    intro h
    rw [Tree.indexes] at h ⊢
    obtain ⟨f, hf, hP⟩ := h i List.mem_cons_self
    obtain ⟨outs, houts, hall⟩ := exists_outlines ho ts fun j hj => h j (List.mem_cons_of_mem _ hj)
    refine ⟨.mk f (some outs) none, ?_, ?_⟩
    · rw [outline?, hf, ho]
      show (do return Outline.mk f (some (← g.outlines? s o ts)) none) = _
      rw [houts]
      rfl
    · rw [Outline.flatten, Outline.flattenInside]
      exact .cons hP hall

/-- The outlines of trees of declarations with facts show their facts in order. -/
theorem exists_outlines {P : Nat → Facts → Prop} (ho : o.includeChildren = true) :
    ∀ ts : List Tree, (∀ i ∈ Tree.indexesAll ts, ∃ f, g.facts? s o i = some f ∧ P i f) →
      ∃ outs, g.outlines? s o ts = some outs ∧
        List.Forall₂ P (Tree.indexesAll ts) (Outline.flattenAll outs)
  | [] => by
    intro _
    exact ⟨[], by rw [outlines?], .nil⟩
  | t :: ts => by
    intro h
    rw [Tree.indexesAll] at h ⊢
    obtain ⟨out, hout, hfirst⟩ := exists_outline ho t fun j hj => h j (List.mem_append_left _ hj)
    obtain ⟨outs, houts, hrest⟩ :=
      exists_outlines ho ts fun j hj => h j (List.mem_append_right _ hj)
    refine ⟨out :: outs, ?_, ?_⟩
    · rw [outlines?, hout]
      show (do return out :: (← g.outlines? s o ts)) = _
      rw [houts]
      rfl
    · rw [Outline.flattenAll]
      exact List.rel_append hfirst hrest

end

/-- Trees of declarations with facts have outlines, whatever the options leave out of them. -/
theorem exists_outlines_of_facts : ∀ ts : List Tree,
    (∀ i ∈ Tree.indexesAll ts, ∃ f, g.facts? s o i = some f) →
      ∃ outs, g.outlines? s o ts = some outs := by
  intro ts h
  cases ho : o.includeChildren with
  | true =>
    obtain ⟨outs, houts, -⟩ := exists_outlines (P := fun _ _ => True) ho ts
      fun i hi => (h i hi).imp fun f hf => ⟨hf, trivial⟩
    exact ⟨outs, houts⟩
  | false =>
    -- without their children the trees are read at their tops only
    induction ts with
    | nil => exact ⟨[], by rw [outlines?]⟩
    | cons t ts ih =>
      obtain ⟨i, children⟩ := t
      rw [Tree.indexesAll, Tree.indexes] at h
      obtain ⟨f, hf⟩ := h i (List.mem_append_left _ List.mem_cons_self)
      obtain ⟨outs, houts⟩ := ih fun j hj => h j (List.mem_append_right _ hj)
      let count := if o.includeChildCount then some children.length else none
      refine ⟨.mk f none count :: outs, ?_⟩
      rw [outlines?, outline?, hf, ho, houts]
      rfl

/-! ## The document of a selection -/

variable {depth : Nat → Nat}

/-- Whatever a selection includes, the forest restricted to it has outlines. -/
theorem Owned.exists_project (hg : g.Owned depth) (he : g.EdgesInside) (s : Selection)
    (o : Options) : ∃ outs, g.project? s o = some outs := by
  obtain ⟨f, hf, hroots, hall⟩ := hg.exists_forest
  have hfacts : ∀ i ∈ Tree.indexesAll (Forest.restrict s.included f),
      ∃ x, g.facts? s o i = some x := by
    intro i hi
    have hlt := hg.indexesAll_lt hroots hall (Tree.indexesAll_restrict_subset _ f hi)
    obtain ⟨x, hx, -⟩ := he.exists_facts s o hlt
    exact ⟨x, hx⟩
  unfold project?
  rw [hf]
  exact exists_outlines_of_facts _ hfacts

/-- What a selection projects to is the nodes of a document, if its seeds are in the graph. -/
theorem exists_document_of_project (hs : ∀ i ∈ s.seeds, i < g.size) (origin : Origin)
    {outs : List Outline} (hproject : g.project? s o = some outs) :
    ∃ doc, g.document? origin s o = some doc ∧ doc.stats.included = s.included.size ∧
      doc.nodes = outs := by
  have hlook : ∀ i ∈ s.seeds.toList, ∃ n, g.node? i = some n := fun i hi => exists_node? (hs i hi)
  obtain ⟨seeds, hseeds⟩ := exists_mapM_of_some hlook
  unfold document?
  rw [hseeds]
  show ∃ doc, (g.project? s o >>= fun nodes => _) = some doc ∧ _
  rw [hproject]
  exact ⟨_, rfl, rfl, rfl⟩

/-- Restricted to what a coherent selection includes, the forest lists that and nothing else, each
once. -/
theorem Owned.restrict_perm (hg : g.Owned depth) (hs : s.Coherent g) {f : Forest}
    (hroots : f.map Tree.index = g.roots) (hall : Tree.CompleteAll g f) :
    (Tree.indexesAll (Forest.restrict s.included f)).Perm s.included.toList := by
  rw [hg.indexes_restrict hs.closedUp f hall]
  have hperm := hg.indexes_perm_range hroots hall
  rw [Forest.indexes_eq] at hperm
  -- neither list repeats anything, so that it is enough to compare their members
  refine (List.perm_ext_iff_of_nodup ?_ s.included.toList_nodup).mpr ?_
  · exact (hperm.nodup_iff.mpr List.nodup_range).filter _
  · intro i
    rw [List.mem_filter, hperm.mem_iff, List.mem_range, decide_eq_true_eq, IndexSet.mem_toList]
    exact ⟨fun h => h.2, fun hi => ⟨hs.included_lt hg hi, hi⟩⟩

/-- **A coherent selection has a document that shows the forest, restricted to what is included, in
its order.** -/
theorem Owned.exists_document_of_forest (hg : g.Owned depth) (he : g.EdgesInside)
    (hs : s.Coherent g) (origin : Origin) (ho : o.includeChildren = true) {f : Forest}
    (hf : g.forest? = some f) (hroots : f.map Tree.index = g.roots)
    (hall : Tree.CompleteAll g f) :
    ∃ doc, g.document? origin s o = some doc ∧ doc.stats.included = s.included.size ∧
      List.Forall₂ (g.ShownAs s o) (Tree.indexesAll (Forest.restrict s.included f))
        (Outline.flattenAll doc.nodes) := by
  have hperm := hg.restrict_perm hs hroots hall
  have hshown : ∀ i ∈ Tree.indexesAll (Forest.restrict s.included f),
      ∃ x, g.facts? s o i = some x ∧ g.ShownAs s o i x := by
    intro i hi
    have hincluded : i ∈ s.included := hperm.mem_iff.mp hi
    obtain ⟨x, hx⟩ := he.exists_shownAs hs o (hs.included_lt hg hincluded) hincluded
    exact ⟨x, hx.facts, hx⟩
  obtain ⟨outs, houts, hflat⟩ := exists_outlines ho _ hshown
  have hproject : g.project? s o = some outs := by
    unfold project?
    rw [hf]
    exact houts
  obtain ⟨doc, hdoc, hstats, hnodes⟩ := exists_document_of_project hs.seeds_lt origin hproject
  exact ⟨doc, hdoc, hstats, hnodes ▸ hflat⟩

/-- A coherent selection has a document that shows every included declaration exactly once. -/
theorem Owned.exists_document (hg : g.Owned depth) (he : g.EdgesInside) (hs : s.Coherent g)
    (origin : Origin) (ho : o.includeChildren = true) :
    ∃ doc, g.document? origin s o = some doc ∧ doc.stats.included = s.included.size ∧
      ∃ shown : List Nat, shown.Perm s.included.toList ∧
        List.Forall₂ (g.ShownAs s o) shown (Outline.flattenAll doc.nodes) := by
  obtain ⟨f, hf, hroots, hall⟩ := hg.exists_forest
  obtain ⟨doc, hdoc, hstats, hshown⟩ :=
    hg.exists_document_of_forest he hs origin ho hf hroots hall
  exact ⟨doc, hdoc, hstats, _, hg.restrict_perm hs hroots hall, hshown⟩

/-- A coherent selection has a document, whatever the options leave out of it. -/
theorem Owned.exists_document_any (hg : g.Owned depth) (he : g.EdgesInside) (hs : s.Coherent g)
    (origin : Origin) (o : Options) : ∃ doc, g.document? origin s o = some doc := by
  obtain ⟨outs, hproject⟩ := hg.exists_project he s o
  obtain ⟨doc, hdoc, -⟩ := exists_document_of_project hs.seeds_lt origin hproject
  exact ⟨doc, hdoc⟩

end Graph

/-! ## The document of a request -/

namespace Analysis

theorem ofSource_owned (src : Source) :
    ∃ depth, (ofSource src).graph.Owned depth :=
  ⟨_, Draft.freeze_owned (Draft.built_lawful src.text.toList src.tree) src.text.toList⟩

theorem ofSource_edgesInside (src : Source) : (ofSource src).graph.EdgesInside :=
  Draft.freeze_edgesInside (Draft.built_lawful src.text.toList src.tree) src.text.toList

/-- A request on an analysis has a document, unless its tokens stand for nothing. -/
theorem slice_cases (src : Source) (r : Request) (o : Options) :
    ((ofSource src).graph.matchingAny r.seeds).isEmpty = true ∧
        (ofSource src).slice r o = .error (.seeds r.seeds) ∨
      ∃ doc, (ofSource src).slice r o = .ok doc := by
  obtain ⟨depth, hg⟩ := ofSource_owned src
  have he := ofSource_edgesInside src
  unfold slice
  rcases hg.select_cases he r with ⟨hempty, hselect⟩ | ⟨sel, hselect, -, hs⟩
  · rw [hselect]
    exact Or.inl ⟨hempty, rfl⟩
  · obtain ⟨doc, hdoc⟩ := hg.exists_document_any he hs (ofSource src).source.origin o
    rw [hselect]
    refine Or.inr ⟨doc, ?_⟩
    show (ofSource src).document sel o = _
    unfold document
    rw [hdoc]

/-- **A document shows every included declaration exactly once**, with the detail that the sets of
the selection give to it. There are as many as the document says, and all declarations that the
tokens of the request stand for are among them. A request fails only if its tokens stand for
none. -/
theorem slice_shows_included (src : Source) (r : Request) (o : Options)
    (ho : o.includeChildren = true) :
    (∀ e, (ofSource src).slice r o = .error e →
      e = .seeds r.seeds ∧ ((ofSource src).graph.matchingAny r.seeds).isEmpty = true) ∧
    ∀ doc, (ofSource src).slice r o = .ok doc →
      ∃ sel, (ofSource src).graph.select r = .ok sel ∧
        (ofSource src).graph.resolve r.seeds = .ok sel.seeds ∧
        ∃ shown : List Nat,
          shown.Perm sel.included.toList ∧
          List.Forall₂ ((ofSource src).graph.ShownAs sel o) shown (Outline.flattenAll doc.nodes) ∧
          doc.stats.included = (Outline.flattenAll doc.nodes).length ∧
          ∀ i ∈ sel.seeds, i ∈ shown := by
  obtain ⟨depth, hg⟩ := ofSource_owned src
  have he := ofSource_edgesInside src
  rcases hg.select_cases he r with ⟨hempty, hselect⟩ | ⟨sel, hselect, hresolve, hs⟩
  · have hslice : (ofSource src).slice r o = .error (.seeds r.seeds) := by
      unfold slice
      rw [hselect]
      rfl
    rw [hslice]
    refine ⟨fun e h => ⟨(Except.error.inj h).symm, hempty⟩, fun doc h => ?_⟩
    exact absurd h (by simp)
  · obtain ⟨doc, hdoc, hstats, shown, hperm, hshown⟩ :=
      hg.exists_document he hs (ofSource src).source.origin ho
    have hdocument : (ofSource src).document sel o = .ok doc := by
      unfold document
      rw [hdoc]
    have hslice : (ofSource src).slice r o = .ok doc := by
      unfold slice
      rw [hselect]
      exact hdocument
    rw [hslice]
    refine ⟨fun e h => absurd h (by simp), fun doc' h => ?_⟩
    rw [← Except.ok.inj h]
    refine ⟨sel, hselect, hresolve, shown, hperm, hshown, ?_, ?_⟩
    · rw [hstats, ← hshown.length_eq, hperm.length_eq]
      rfl
    · intro i hi
      refine hperm.mem_iff.mpr (hs.context_included ?_)
      exact hs.full_context i (hs.seeds_full i hi)

/-- A function inside another one. -/
def nestedFunctions : Source where
  path := "nested.js"
  dialect := .javascript
  text := "function f(){function g(){}}"
  tree :=
    .mk ⟨.other, 0, 28, true, false, false, []⟩ [
      .mk ⟨.functionDeclaration, 0, 28, true, false, false, []⟩ [
        .mk ⟨.identifier, 9, 10, true, false, false, [.name]⟩ [],
        .mk ⟨.other, 12, 28, true, false, false, []⟩ [
          .mk ⟨.functionDeclaration, 13, 27, true, false, false, []⟩ [
            .mk ⟨.identifier, 22, 23, true, false, false, [.name]⟩ []]]]]

/-- The inner function can be asked for by name, and the document shows all that is selected. -/
theorem slice_shows_included_nestedFunctions :
    ({} : Options).includeChildren = true ∧
    ∃ doc sel, (ofSource nestedFunctions).slice ⟨["g"], 0, 0⟩ {} = .ok doc ∧
      (ofSource nestedFunctions).graph.select ⟨["g"], 0, 0⟩ = .ok sel ∧
      (ofSource nestedFunctions).graph.resolve ["g"] = .ok sel.seeds ∧
      ∃ shown : List Nat,
        shown.Perm sel.included.toList ∧
        List.Forall₂ ((ofSource nestedFunctions).graph.ShownAs sel {}) shown
          (Outline.flattenAll doc.nodes) ∧
        doc.stats.included = (Outline.flattenAll doc.nodes).length ∧
        ∀ i ∈ sel.seeds, i ∈ shown := by
  obtain ⟨hfails, hshows⟩ := slice_shows_included nestedFunctions ⟨["g"], 0, 0⟩ {} rfl
  have hsite : ∃ s ∈ nestedFunctions.tree.sites,
      s.heading? nestedFunctions.text.toList = some ⟨.function, "g", ""⟩ := by decide +kernel
  obtain ⟨s, hs, hheading⟩ := hsite
  obtain ⟨i, n, hn, hg⟩ := Draft.exists_built hs hheading
  refine ⟨rfl, ?_⟩
  cases hslice : (ofSource nestedFunctions).slice ⟨["g"], 0, 0⟩ {} with
  | error e =>
    -- a request fails only if it matches nothing, and a declared name matches something
    obtain ⟨j, hj⟩ := Graph.exists_matching_name hn
    rw [hg] at hj
    exact absurd (IndexSet.mem_union.mpr (Or.inl hj))
      (IndexSet.not_mem_of_isEmpty (hfails e hslice).2 j)
  | ok doc =>
    obtain ⟨sel, hsel⟩ := hshows doc hslice
    exact ⟨doc, sel, rfl, hsel⟩

end Analysis

end CallVicinity
