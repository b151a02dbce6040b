import CallVicinity.Proofs.Document.Shown
import CallVicinity.Proofs.Selection.Distance

/-!
# Larger radii show more

The same tokens can be asked for with larger radii. The distances from the seeds do not depend on
the radii, so that each set of the selection can only grow (`Selection.Exact.growsTo`). It is not
the sets that a document shows, though, but details and references, and those depend on the sets in
two ways: a declaration can go from an owner to the outline and on to a full text, and a reference
is written only if its target is included. Both only grow with the sets:

> `Analysis.slice_grows`: every declaration of the smaller document is in the larger one, with at
> least the same detail, and one in full keeps its references in their order.
-/

namespace CallVicinity

/-- How high a detail is: an owner, then the outline, then the full text. -/
def Detail.rank : Detail → Nat
  | .ancestor => 0
  | .context => 1
  | .full => 2

/-- The names that outlines show, with their details. -/
def Outline.details (os : List Outline) : List (Option String × Detail) :=
  (Outline.flattenAll os).map fun x => (x.name, x.detail)

/-- A selection grows into another one around the same seeds: no set loses a member, and what was
reached stays at its distance. -/
structure Selection.GrowsTo (s s' : Selection) : Prop where
  seeds : s'.seeds = s.seeds
  fullDetail : ∀ i ∈ s.fullDetail, i ∈ s'.fullDetail
  context : ∀ i ∈ s.context, i ∈ s'.context
  included : ∀ i ∈ s.included, i ∈ s'.included
  distances : ∀ i d, (i, d) ∈ s.distances → ∀ d', (i, d') ∈ s'.distances ↔ d' = d

/-- What is shown of a declaration grows: the detail gets no lower, and a full one keeps its
references in their order. -/
structure Facts.GrowsTo (x x' : Facts) : Prop where
  detail : x.detail.rank ≤ x'.detail.rank
  calls : x.detail = .full →
    ∃ refs refs', x.calls = some refs ∧ x'.calls = some refs' ∧ refs.Sublist refs'
  calledBy : x.detail = .full →
    ∃ refs refs', x.calledBy = some refs ∧ x'.calledBy = some refs' ∧ refs.Sublist refs'

/-! ## Selections -/

/-- Exact selections around the same tokens grow with the radii. -/
theorem Selection.Exact.growsTo {g : Graph} {tokens : List String} {f c f' c' : Nat}
    {s s' : Selection} (hs : s.Exact g ⟨tokens, f, c⟩) (hs' : s'.Exact g ⟨tokens, f', c'⟩)
    (hf : f ≤ f') (hc : max c f ≤ max c' f') : s.GrowsTo s' := by
  have hseeds : s'.seeds = s.seeds := by
    rw [hs.seeds, hs'.seeds]
  have hcontext : ∀ i ∈ s.context, i ∈ s'.context := by
    intro i hi
    rw [hs.mem_context] at hi
    rw [hs'.mem_context, hseeds]
    exact hi.trans (Nat.cast_le.mpr hc)
  refine ⟨hseeds, ?_, hcontext, ?_, ?_⟩
  · intro i hi
    rw [hs.mem_full] at hi
    rw [hs'.mem_full, hseeds]
    exact hi.trans (Nat.cast_le.mpr hf)
  · intro a ha
    obtain ⟨i, hi, hia⟩ := (hs.coherent.included_iff a).mp ha
    exact (hs'.coherent.included_iff a).mpr ⟨i, hcontext i hi, hia⟩
  · intro i d hd d'
    obtain ⟨hdist, hle⟩ := (hs.mem_distances i d).mp hd
    rw [hs'.mem_distances, hseeds, hdist, Nat.cast_inj]
    constructor
    · intro h
      exact h.1.symm
    · intro h
      rw [h]
      exact ⟨rfl, Nat.le_trans hle hc⟩

theorem Selection.GrowsTo.detail_rank_le {s s' : Selection} (h : s.GrowsTo s') (i : Nat) :
    (s.detail i).rank ≤ (s'.detail i).rank := by
  unfold Selection.detail
  by_cases hfull : i ∈ s.fullDetail
  · rw [if_pos hfull, if_pos (h.fullDetail i hfull)]
  · rw [if_neg hfull]
    by_cases hcontext : i ∈ s.context
    · rw [if_pos hcontext, if_pos (h.context i hcontext)]
      by_cases hfull' : i ∈ s'.fullDetail
      · rw [if_pos hfull']
        decide
      · rw [if_neg hfull']
    · rw [if_neg hcontext]
      exact Nat.zero_le _

/-! ## What is shown of one declaration -/

namespace Graph

variable {g : Graph} {s s' : Selection} {o : Options}

/-- The references to what is included are a part of those to what a larger selection includes. -/
theorem references?_sublist (h : ∀ i ∈ s.included, i ∈ s'.included) (mode : RefMode)
    (targets : IndexSet) (hsome : (g.references? s' mode targets).isSome) :
    ∃ refs refs', g.references? s mode targets = some refs ∧
      g.references? s' mode targets = some refs' ∧ refs.Sublist refs' := by
  obtain ⟨refs', hrefs'⟩ := Option.isSome_iff_exists.mp hsome
  have hsub : (targets.toList.filter fun i => decide (i ∈ s.included)).Sublist
      (targets.toList.filter fun i => decide (i ∈ s'.included)) := by
    refine List.monotone_filter_right _ ?_
    intro i hi
    exact decide_eq_true (h i (of_decide_eq_true hi))
  obtain ⟨refs, hrefs, hpart⟩ := mapM_sublist hsub hrefs'
  exact ⟨refs, refs', hrefs, hrefs', hpart⟩

/-- Where facts are full, their references are those to what the selection includes. The id is shown
where they are full or the options have it shown. -/
theorem facts?_eq_some {i : Nat} {x : Facts} (h : g.facts? s o i = some x) :
    x.detail = s.detail i ∧ ∃ n, g.node? i = some n ∧
      (x.detail = .full → x.calls = g.references? s o.refMode n.calls ∧
        x.calledBy = g.references? s o.refMode n.calledBy) ∧
      (x.detail = .full ∨ StructuralField.id ∈ o.structuralFields → x.id = some n.id) := by
  unfold facts? at h
  obtain ⟨n, hn, h⟩ := Option.bind_eq_some_iff.mp h
  cases hd : s.detail i with
  | full =>
    rw [hd] at h
    obtain ⟨calls, hcalls, h⟩ := Option.bind_eq_some_iff.mp h
    obtain ⟨calledBy, hcalledBy, h⟩ := Option.bind_eq_some_iff.mp h
    rw [← Option.some.inj h]
    exact ⟨rfl, n, hn, fun _ => ⟨hcalls.symm, hcalledBy.symm⟩, fun _ => rfl⟩
  | context =>
    rw [hd] at h
    rw [← Option.some.inj h]
    exact ⟨rfl, n, hn, by simp [Declaration.outlineFacts], by simp [Declaration.outlineFacts]⟩
  | ancestor =>
    rw [hd] at h
    rw [← Option.some.inj h]
    exact ⟨rfl, n, hn, by simp [Declaration.outlineFacts], by simp [Declaration.outlineFacts]⟩

/-- What is shown of a declaration grows with the selection. -/
theorem ShownAs.growsTo (h : s.GrowsTo s') {i : Nat} {x x' : Facts} (hx : g.ShownAs s o i x)
    (hx' : g.ShownAs s' o i x') : x.GrowsTo x' := by
  obtain ⟨hdetail, n, hn, hrefs, -⟩ := facts?_eq_some hx.facts
  obtain ⟨hdetail', n', hn', hrefs', -⟩ := facts?_eq_some hx'.facts
  rw [hn] at hn'
  obtain rfl := Option.some.inj hn'
  have hkeeps : x.detail = .full → x'.detail = .full :=
    fun hfull => hx'.full.mpr (h.fullDetail i (hx.full.mp hfull))
  refine ⟨?_, ?_, ?_⟩
  · rw [hdetail, hdetail']
    exact h.detail_rank_le i
  · intro hfull
    have hsome := hx'.calls.mpr (hkeeps hfull)
    rw [(hrefs' (hkeeps hfull)).1] at hsome ⊢
    rw [(hrefs hfull).1]
    exact references?_sublist h.included _ _ hsome
  · intro hfull
    have hsome := hx'.calledBy.mpr (hkeeps hfull)
    rw [(hrefs' (hkeeps hfull)).2] at hsome ⊢
    rw [(hrefs hfull).2]
    exact references?_sublist h.included _ _ hsome

/-- A document has the ids of the seeds of its selection, the outlines of what is included and the
radii. -/
theorem document?_eq_some {origin : Origin} {doc : Document}
    (h : g.document? origin s o = some doc) :
    ∃ ns, s.seeds.toList.mapM g.node? = some ns ∧ doc.seeds = ns.map (·.id) ∧
      g.project? s o = some doc.nodes ∧
      doc.fullRadius = s.fullRadius ∧ doc.contextRadius = s.contextRadius := by
  unfold document? at h
  obtain ⟨ns, hns, h⟩ := Option.bind_eq_some_iff.mp h
  obtain ⟨nodes, hnodes, h⟩ := Option.bind_eq_some_iff.mp h
  rw [← Option.some.inj h]
  exact ⟨ns, hns, rfl, hnodes, rfl, rfl⟩

theorem document?_seeds_congr {origin : Origin} {doc doc' : Document}
    (h : g.document? origin s o = some doc) (h' : g.document? origin s' o = some doc')
    (hseeds : s'.seeds = s.seeds) : doc'.seeds = doc.seeds := by
  obtain ⟨ns, hns, hdoc, -⟩ := document?_eq_some h
  obtain ⟨ns', hns', hdoc', -⟩ := document?_eq_some h'
  rw [hseeds, hns] at hns'
  rw [hdoc, hdoc', Option.some.inj hns']

/-- A token that stands for something can be resolved. -/
theorem exists_resolve {token : String} (h : ∃ j, j ∈ g.matching token) :
    ∃ seeds, g.resolve [token] = .ok seeds ∧ ∃ j, j ∈ seeds := by
  obtain ⟨j, hj⟩ := h
  have hmem : j ∈ g.matchingAny [token] := IndexSet.mem_union.mpr (Or.inl hj)
  refine ⟨g.matchingAny [token], ?_, j, hmem⟩
  unfold resolve
  exact if_neg fun hempty => IndexSet.not_mem_of_isEmpty hempty j hmem

/-- The name of a declaration can be resolved. -/
theorem exists_resolve_name {i : Nat} {n : Declaration} (hn : g.node? i = some n) :
    ∃ seeds, g.resolve [n.name] = .ok seeds := by
  obtain ⟨seeds, hseeds, -⟩ := exists_resolve (exists_matching_name hn)
  exact ⟨seeds, hseeds⟩

end Graph

/-! ## Documents -/

namespace Analysis

theorem slice_eq_ok {a : Analysis} {r : Request} {o : Options} {s : Selection} {doc : Document}
    (hs : a.graph.select r = .ok s) (hdoc : a.graph.document? a.source.origin s o = some doc) :
    a.slice r o = .ok doc := by
  unfold slice document
  rw [hs]
  simp only [bind, Except.bind, hdoc]

/-- Behind a document there is a selection. -/
theorem exists_select_of_slice {a : Analysis} {r : Request} {o : Options} {doc : Document}
    (h : a.slice r o = .ok doc) :
    ∃ s, a.graph.select r = .ok s ∧ a.graph.document? a.source.origin s o = some doc := by
  unfold slice at h
  cases hs : a.graph.select r with
  | error e =>
    rw [hs] at h
    exact absurd h (by simp [bind, Except.bind])
  | ok s =>
    rw [hs] at h
    refine ⟨s, rfl, ?_⟩
    replace h : a.document s o = .ok doc := h
    unfold document at h
    split at h
    next doc' hdoc => rw [hdoc, Except.ok.inj h]
    next => exact absurd h (by simp)

/-- Around tokens that stand for something there is an exact selection for any radii, and a document
that shows it. -/
theorem exists_slice (src : Source) {tokens : List String} {seeds : IndexSet}
    (hresolve : (ofSource src).graph.resolve tokens = .ok seeds) {o : Options}
    (ho : o.includeChildren = true) (f c : Nat) :
    ∃ s doc, (ofSource src).graph.select ⟨tokens, f, c⟩ = .ok s ∧
      (ofSource src).graph.document? (ofSource src).source.origin s o = some doc ∧
      s.seeds = seeds ∧ s.Exact (ofSource src).graph ⟨tokens, f, c⟩ ∧
      ∃ shown : List Nat, shown.Perm s.included.toList ∧
        List.Forall₂ ((ofSource src).graph.ShownAs s o) shown (Outline.flattenAll doc.nodes) := by
  obtain ⟨depth, hg⟩ := ofSource_owned src
  have hp : (ofSource src).graph.Paired := Graph.build_paired src.text.toList src.tree
  rcases hg.select_cases hp.edgesInside ⟨tokens, f, c⟩ with ⟨hempty, -⟩ | ⟨s, hs, hseeds, hco⟩
  · rw [Graph.resolve, if_pos hempty] at hresolve
    exact absurd hresolve (by simp)
  · obtain ⟨doc, hdoc, -, hshown⟩ :=
      hg.exists_document hp.edgesInside hco (ofSource src).source.origin ho
    rw [hresolve] at hseeds
    exact ⟨s, doc, hs, hdoc, (Except.ok.inj hseeds).symm, hg.exact_of_select hp hs, hshown⟩

/-- Behind a document there is an exact selection, and the document shows it. -/
theorem exists_shown_of_slice (src : Source) {r : Request} {o : Options}
    (ho : o.includeChildren = true) {doc : Document} (h : (ofSource src).slice r o = .ok doc) :
    ∃ s, (ofSource src).graph.select r = .ok s ∧
      (ofSource src).graph.document? (ofSource src).source.origin s o = some doc ∧
      s.Exact (ofSource src).graph r ∧
      ∃ shown : List Nat, shown.Perm s.included.toList ∧
        List.Forall₂ ((ofSource src).graph.ShownAs s o) shown (Outline.flattenAll doc.nodes) := by
  obtain ⟨depth, hg⟩ := ofSource_owned src
  have hp : (ofSource src).graph.Paired := Graph.build_paired src.text.toList src.tree
  obtain ⟨s, hs, hdoc⟩ := exists_select_of_slice h
  have hexact := hg.exact_of_select hp hs
  obtain ⟨doc', hdoc', -, hshown⟩ :=
    hg.exists_document hp.edgesInside hexact.coherent (ofSource src).source.origin ho
  obtain rfl := Option.some.inj (hdoc.symm.trans hdoc')
  exact ⟨s, hs, hdoc, hexact, hshown⟩

/-- A declared site can be asked for by the name in its heading. -/
theorem exists_slice_name (src : Source) {s : Site} {h : Heading} (hs : s ∈ src.tree.sites)
    (hh : s.heading? src.text.toList = some h) {o : Options} (ho : o.includeChildren = true)
    (f c : Nat) : ∃ doc, (ofSource src).slice ⟨[h.name], f, c⟩ o = .ok doc := by
  obtain ⟨i, n, hn, hname⟩ := Draft.exists_built hs hh
  obtain ⟨seeds, hresolve⟩ := Graph.exists_resolve_name (g := (ofSource src).graph) hn
  rw [hname] at hresolve
  obtain ⟨sel, doc, hsel, hdoc, -⟩ := exists_slice src hresolve ho f c
  exact ⟨doc, slice_eq_ok hsel hdoc⟩

/-- **Larger radii show more.** Around tokens that stand for something there is a document for any
radii. With larger ones, the seeds are the same, every set of the selection grows and every distance
stays. Every declaration that the smaller document shows is shown by the larger one, with a detail
that is at least as high. Where the smaller one shows it in full, the references that it has there
are found in the larger one, in the same order. -/
theorem slice_grows (src : Source) (tokens : List String) (o : Options)
    (ho : o.includeChildren = true) {f c f' c' : Nat} (hf : f ≤ f') (hc : max f c ≤ max f' c')
    {seeds : IndexSet} (hresolve : (ofSource src).graph.resolve tokens = .ok seeds) :
    ∃ s s' doc doc',
      (ofSource src).graph.select ⟨tokens, f, c⟩ = .ok s ∧
      (ofSource src).graph.select ⟨tokens, f', c'⟩ = .ok s' ∧
      (ofSource src).slice ⟨tokens, f, c⟩ o = .ok doc ∧
      (ofSource src).slice ⟨tokens, f', c'⟩ o = .ok doc' ∧
      s.seeds = seeds ∧ s.GrowsTo s' ∧ doc'.seeds = doc.seeds ∧
      ∃ shown shown' : List Nat,
        shown.Perm s.included.toList ∧ shown'.Perm s'.included.toList ∧
        List.Forall₂ ((ofSource src).graph.ShownAs s o) shown (Outline.flattenAll doc.nodes) ∧
        List.Forall₂ ((ofSource src).graph.ShownAs s' o) shown' (Outline.flattenAll doc'.nodes) ∧
        ∀ i x, (i, x) ∈ shown.zip (Outline.flattenAll doc.nodes) →
          ∃ x', (i, x') ∈ shown'.zip (Outline.flattenAll doc'.nodes) ∧ x.GrowsTo x' := by
  obtain ⟨s, doc, hs, hdoc, hseeds, hexact, shown, hperm, hshown⟩ :=
    exists_slice src hresolve ho f c
  obtain ⟨s', doc', hs', hdoc', -, hexact', shown', hperm', hshown'⟩ :=
    exists_slice src hresolve ho f' c'
  have hgrows : s.GrowsTo s' := by
    refine hexact.growsTo hexact' hf ?_
    rw [max_comm c f, max_comm c' f']
    exact hc
  refine ⟨s, s', doc, doc', hs, hs', slice_eq_ok hs hdoc, slice_eq_ok hs' hdoc', hseeds, hgrows,
    Graph.document?_seeds_congr hdoc hdoc' hgrows.seeds, shown, shown', hperm, hperm', hshown,
    hshown', ?_⟩
  intro i x hx
  have hi : i ∈ s.included := hperm.mem_iff.mp (List.of_mem_zip hx).1
  obtain ⟨x', hx', hshownAs⟩ :=
    exists_mem_zip hshown' (hperm'.mem_iff.mpr (hgrows.included i hi))
  exact ⟨x', hx', (List.forall₂_zip hshown hx).growsTo hgrows hshownAs⟩

/-- The document around the called function shows what is projected around it. -/
theorem slice_innerCall {f c : Nat} (h : max c f = 1) {o : Options} {s : Selection}
    {doc : Document} (hs : (ofSource Graph.innerCall).graph.select ⟨["g"], f, c⟩ = .ok s)
    (hdoc : (ofSource Graph.innerCall).slice ⟨["g"], f, c⟩ o = .ok doc) :
    s = Graph.aroundCalled f ∧
      Graph.innerCallGraph.project? (Graph.aroundCalled f) o = some doc.nodes := by
  have hgraph : (ofSource Graph.innerCall).graph = Graph.innerCallGraph := Graph.build_innerCall
  obtain ⟨s', hs', hdoc⟩ := exists_select_of_slice hdoc
  obtain ⟨-, -, -, hnodes, -⟩ := Graph.document?_eq_some hdoc
  rw [hgraph] at hs hs' hnodes
  obtain rfl := Except.ok.inj ((Graph.innerCallGraph_select h).symm.trans hs')
  exact ⟨Except.ok.inj (hs.symm.trans hs'), hnodes⟩

/-- The caller goes from the outline to the full texts. The radius that is asked for the outline may
get smaller, if the full radius makes up for it. -/
theorem slice_grows_innerCall :
    ({} : Options).includeChildren = true ∧ 0 ≤ 1 ∧ max 0 1 ≤ max 1 0 ∧
    (ofSource Graph.innerCall).graph.resolve ["g"] = .ok (.ofList [0]) ∧
    ∃ s s' doc doc',
      (ofSource Graph.innerCall).graph.select ⟨["g"], 0, 1⟩ = .ok s ∧
      (ofSource Graph.innerCall).graph.select ⟨["g"], 1, 0⟩ = .ok s' ∧
      (ofSource Graph.innerCall).slice ⟨["g"], 0, 1⟩ {} = .ok doc ∧
      (ofSource Graph.innerCall).slice ⟨["g"], 1, 0⟩ {} = .ok doc' ∧
      s.fullDetail = .ofList [0] ∧ s'.fullDetail = .ofList [0, 2] ∧
      Outline.details doc.nodes
        = [(some "g", .full), (some "h", .ancestor), (some "f", .context)] ∧
      Outline.details doc'.nodes
        = [(some "g", .full), (some "h", .ancestor), (some "f", .full)] ∧
      s.seeds = .ofList [0] ∧ s.GrowsTo s' ∧ doc'.seeds = doc.seeds ∧
      ∃ shown shown' : List Nat,
        shown.Perm s.included.toList ∧ shown'.Perm s'.included.toList ∧
        List.Forall₂ ((ofSource Graph.innerCall).graph.ShownAs s {}) shown
          (Outline.flattenAll doc.nodes) ∧
        List.Forall₂ ((ofSource Graph.innerCall).graph.ShownAs s' {}) shown'
          (Outline.flattenAll doc'.nodes) ∧
        ∀ i x, (i, x) ∈ shown.zip (Outline.flattenAll doc.nodes) →
          ∃ x', (i, x') ∈ shown'.zip (Outline.flattenAll doc'.nodes) ∧ x.GrowsTo x' := by
  have hgraph : (ofSource Graph.innerCall).graph = Graph.innerCallGraph := Graph.build_innerCall
  have hfull : 0 ≤ 1 := by decide
  have hreach : max 0 1 ≤ max 1 0 := by decide
  have hresolve : (ofSource Graph.innerCall).graph.resolve ["g"] = .ok (.ofList [0]) := by
    rw [hgraph]
    decide +kernel
  obtain ⟨s, s', doc, doc', hs, hs', hdoc, hdoc', hgrows⟩ :=
    slice_grows Graph.innerCall ["g"] {} rfl hfull hreach hresolve
  obtain ⟨rfl, hnodes⟩ := slice_innerCall rfl hs hdoc
  obtain ⟨rfl, hnodes'⟩ := slice_innerCall rfl hs' hdoc'
  have hdetails : (Graph.innerCallGraph.project? (Graph.aroundCalled 0) {}).map Outline.details
      = some [(some "g", .full), (some "h", .ancestor), (some "f", .context)] := by decide +kernel
  have hdetails' : (Graph.innerCallGraph.project? (Graph.aroundCalled 1) {}).map Outline.details
      = some [(some "g", .full), (some "h", .ancestor), (some "f", .full)] := by decide +kernel
  rw [hnodes] at hdetails
  rw [hnodes'] at hdetails'
  exact ⟨rfl, hfull, hreach, hresolve, _, _, doc, doc', hs, hs', hdoc, hdoc', rfl, rfl,
    Option.some.inj hdetails, Option.some.inj hdetails', hgrows⟩

end Analysis

end CallVicinity
