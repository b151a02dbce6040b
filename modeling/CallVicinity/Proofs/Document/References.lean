import CallVicinity.Proofs.Document.SeedsAgain

/-!
# References between what is shown

A declaration in full lists what it calls and what calls it, less what is not included. The outline
of a document is made by another rule: it is the forest restricted to what is included, where a
declaration goes with its owner. The two rules fit together:

> `Analysis.slice_references`: every id in a list is that of a declaration in the same document, the
> lists of two declarations in full agree with each other, and no list misses anything as long as
> its declaration is nearer to the seeds than the radius of the outline.

The last part is one step of the search: what is adjacent to a declaration is at most one step
further away (`Graph.Paired.distance_le_of_adjacent`).
-/

namespace CallVicinity

/-- Two facts agree on whether the first calls the second: its id is among the calls of the first
exactly if the id of the first is among the callers of the second. -/
def Facts.Agree (x y : Facts) : Prop :=
  ∃ a b calls calledBy, x.id = some a ∧ y.id = some b ∧ x.calls = some calls ∧
    y.calledBy = some calledBy ∧ (b ∈ calls ↔ a ∈ calledBy)

namespace Graph

/-- Facts `x` list the ids of all that declaration `i` calls and of all that calls it. -/
structure ListsAll (g : Graph) (i : Nat) (x : Facts) : Prop where
  calls : ∃ ns, g.callees? i = some ns ∧ x.calls = some (ns.map (·.id))
  calledBy : ∃ ns, g.callers? i = some ns ∧ x.calledBy = some (ns.map (·.id))

section References

variable {g : Graph} {s : Selection} {targets : IndexSet}

/-- The references are those of the included targets. -/
theorem mem_references {mode : RefMode} {refs : List String}
    (h : g.references? s mode targets = some refs) {ref : String} :
    ref ∈ refs ↔ ∃ j ∈ targets, j ∈ s.included ∧
      ∃ m, g.node? j = some m ∧ m.reference mode = ref := by
  rw [mem_of_mapM h]
  simp only [List.mem_filter, decide_eq_true_eq, Option.map_eq_some_iff, IndexSet.mem_toList,
    and_assoc]

/-- Where ids tell declarations apart, the id of an included declaration is listed exactly if the
declaration is a target. -/
theorem id_mem_references (hids : g.ids.Nodup) {refs : List String}
    (h : g.references? s .id targets = some refs) {k : Nat} {m : Declaration}
    (hm : g.node? k = some m) (hk : k ∈ s.included) : m.id ∈ refs ↔ k ∈ targets := by
  rw [mem_references h]
  constructor
  · rintro ⟨j, hj, -, m', hm', hid⟩
    rw [eq_of_same_id hids hm hm' hid.symm]
    exact hj
  · intro hkt
    exact ⟨k, hkt, hk, m, hm, rfl⟩

/-- Where all targets are included, all of them are listed. -/
theorem references?_eq_all {ns : List Declaration} (hns : targets.toList.mapM g.node? = some ns)
    (hall : ∀ j ∈ targets, j ∈ s.included) :
    g.references? s .id targets = some (ns.map (·.id)) := by
  have hfilter : targets.toList.filter (fun j => decide (j ∈ s.included)) = targets.toList :=
    List.filter_eq_self.mpr fun j hj => decide_eq_true (hall j hj)
  unfold references?
  rw [hfilter]
  exact mapM_map_eq_some hns _

end References

section Distance

variable {g : Graph} {s : Selection} {r : Request}

theorem select_fullRadius (h : g.select r = .ok s) : s.fullRadius = r.fullRadius := by
  obtain ⟨ds, included, -, -, rfl⟩ := selectFrom?_eq_some (select_eq_ok.mp h).2
  rfl

/-- What is adjacent to a declaration nearer than a distance is within that distance. -/
theorem Paired.distance_le_of_adjacent (hp : g.Paired) {seeds : IndexSet} {i j radius : Nat}
    (hi : g.distance seeds i < radius) (hij : g.Adjacent i j) : g.distance seeds j ≤ radius := by
  cases radius with
  | zero => exact absurd hi (not_lt_bot)
  | succ k =>
    exact hp.distance_le_succ.mpr (Or.inr ⟨i, ENat.lt_natCast_add_one_iff.mp hi, hij⟩)

/-- What is adjacent to a declaration nearer than the radius of the outline is included. -/
theorem Paired.included_of_adjacent (hp : g.Paired) (hs : s.Exact g r) {i j : Nat}
    (hi : g.distance s.seeds i < s.contextRadius) (hij : g.Adjacent i j) : j ∈ s.included := by
  rw [hs.contextRadius] at hi
  exact hs.coherent.context_included
    ((hs.mem_context j).mpr (hp.distance_le_of_adjacent hi hij))

/-- **A declaration in full that is nearer than the radius of the outline lists all there is.** -/
theorem ShownAs.listsAll (hp : g.Paired) (hs : s.Exact g r) {o : Options} (hid : o.refMode = .id)
    {i : Nat} {x : Facts} (hx : g.ShownAs s o i x) (hfull : x.detail = .full)
    (hi : g.distance s.seeds i < s.contextRadius) : g.ListsAll i x := by
  obtain ⟨-, n, hn, hrefs, -⟩ := facts?_eq_some hx.facts
  obtain ⟨hcalls, hcalledBy⟩ := hrefs hfull
  have hnear : ∀ j, g.Adjacent i j → j ∈ s.included :=
    fun j hij => hp.included_of_adjacent hs hi hij
  have hlook : ∀ {targets : IndexSet}, (∀ j ∈ targets, g.Adjacent i j) →
      ∃ ns, targets.toList.mapM g.node? = some ns := by
    intro targets ht
    exact exists_mapM_of_some fun j hj => exists_node? (hp.edgesInside i j (ht j hj))
  have hout : ∀ j ∈ n.calls, g.Adjacent i j := fun j hj => Or.inl ⟨n, hn, hj⟩
  have hin : ∀ j ∈ n.calledBy, g.Adjacent i j := fun j hj => Or.inr ⟨n, hn, hj⟩
  obtain ⟨callees, hcallees⟩ := hlook hout
  obtain ⟨callers, hcallers⟩ := hlook hin
  rw [hid] at hcalls hcalledBy
  refine ⟨⟨callees, ?_, ?_⟩, callers, ?_, ?_⟩
  · unfold callees?
    rw [hn]
    exact hcallees
  · rw [hcalls]
    exact references?_eq_all hcallees fun j hj => hnear j (hout j hj)
  · unfold callers?
    rw [hn]
    exact hcallers
  · rw [hcalledBy]
    exact references?_eq_all hcallers fun j hj => hnear j (hin j hj)

end Distance

section Shown

variable {g : Graph} {s : Selection} {o : Options}

/-- Whatever is listed in facts is included, in either list. -/
theorem ShownAs.exists_of_mem {i : Nat} {x : Facts} (hx : g.ShownAs s o i x) {refs : List String}
    (h : x.calls = some refs ∨ x.calledBy = some refs) {ref : String} (href : ref ∈ refs) :
    ∃ j ∈ s.included, ∃ m, g.node? j = some m ∧ m.reference o.refMode = ref := by
  obtain ⟨-, n, -, hrefs, -⟩ := facts?_eq_some hx.facts
  rcases h with h | h
  · obtain ⟨hcalls, -⟩ := hrefs (hx.calls.mp (by rw [h]; rfl))
    obtain ⟨j, -, hj, hm⟩ := (mem_references (hcalls.symm.trans h)).mp href
    exact ⟨j, hj, hm⟩
  · obtain ⟨-, hcalledBy⟩ := hrefs (hx.calledBy.mp (by rw [h]; rfl))
    obtain ⟨j, -, hj, hm⟩ := (mem_references (hcalledBy.symm.trans h)).mp href
    exact ⟨j, hj, hm⟩

/-- **The lists of two declarations in full agree.** -/
theorem ShownAs.agree (hids : g.ids.Nodup) (hp : g.Paired) (hs : s.Coherent g)
    (hid : o.refMode = .id) {i k : Nat} {x y : Facts} (hx : g.ShownAs s o i x)
    (hy : g.ShownAs s o k y) (hxfull : x.detail = .full) (hyfull : y.detail = .full) :
    x.Agree y := by
  obtain ⟨-, n, hn, hxrefs, hxid⟩ := facts?_eq_some hx.facts
  obtain ⟨-, m, hm, hyrefs, hyid⟩ := facts?_eq_some hy.facts
  obtain ⟨calls, hcalls⟩ := Option.isSome_iff_exists.mp (hx.calls.mpr hxfull)
  obtain ⟨calledBy, hcalledBy⟩ := Option.isSome_iff_exists.mp (hy.calledBy.mpr hyfull)
  have hincluded : ∀ {j : Nat} {z : Facts}, g.ShownAs s o j z → z.detail = .full →
      j ∈ s.included :=
    fun hz hfull => hs.context_included (hs.full_context _ (hz.full.mp hfull))
  refine ⟨n.id, m.id, calls, calledBy, hxid (Or.inl hxfull), hyid (Or.inl hyfull), hcalls,
    hcalledBy, ?_⟩
  have hout : g.references? s .id n.calls = some calls := by
    rw [← hid, ← (hxrefs hxfull).1, hcalls]
  have hin : g.references? s .id m.calledBy = some calledBy := by
    rw [← hid, ← (hyrefs hyfull).2, hcalledBy]
  calc m.id ∈ calls
      ↔ k ∈ n.calls := id_mem_references hids hout hm (hincluded hy hyfull)
    _ ↔ g.Calls i k := mem_calls_iff hn
    _ ↔ g.CalledBy k i := hp i k
    _ ↔ i ∈ m.calledBy := (mem_calledBy_iff hm).symm
    _ ↔ n.id ∈ calledBy := (id_mem_references hids hin hn (hincluded hx hxfull)).symm

end Shown

end Graph

namespace Analysis

/-- **The references in a document lead to what it shows.** Every id in a list is that of a
declaration in the same document, which shows it wherever the options let it. Of two declarations in
full, the first lists the second among its calls exactly if the second lists the first among its
callers. A declaration in full that is nearer to the seeds than the radius of the outline lists all
that it calls and all that calls it. With a full radius below that of the outline, all of them
do. -/
theorem slice_references (src : Source) (r : Request) (o : Options)
    (ho : o.includeChildren = true) (hid : o.refMode = .id) {doc : Document}
    (h : (ofSource src).slice r o = .ok doc) :
    let g := (ofSource src).graph
    let facts := Outline.flattenAll doc.nodes
    ∃ sel, g.select r = .ok sel ∧ ∃ shown : List Nat, shown.Perm sel.included.toList ∧
      List.Forall₂ (g.ShownAs sel o) shown facts ∧
      (∀ x ∈ facts, ∀ refs, x.calls = some refs ∨ x.calledBy = some refs → ∀ ref ∈ refs,
        ∃ j y m, (j, y) ∈ shown.zip facts ∧ g.node? j = some m ∧ m.id = ref ∧
          (y.detail = .full ∨ StructuralField.id ∈ o.structuralFields → y.id = some ref)) ∧
      (∀ x ∈ facts, ∀ y ∈ facts, x.detail = .full → y.detail = .full → x.Agree y) ∧
      (∀ i x, (i, x) ∈ shown.zip facts → x.detail = .full →
        g.distance sel.seeds i < doc.contextRadius → g.ListsAll i x) ∧
      (doc.fullRadius < doc.contextRadius →
        ∀ i x, (i, x) ∈ shown.zip facts → x.detail = .full → g.ListsAll i x) := by
  intro g facts
  have hp : g.Paired := Graph.build_paired src.text.toList src.tree
  have hids := ofSource_ids_nodup src
  obtain ⟨sel, hsel, hdoc, hexact, shown, hperm, hshown⟩ := exists_shown_of_slice src ho h
  obtain ⟨-, -, -, -, hfullRadius, hcontextRadius⟩ := Graph.document?_eq_some hdoc
  -- every fact in the document shows a declaration
  have hfact : ∀ x ∈ facts, ∃ i, g.ShownAs sel o i x := by
    intro x hx
    obtain ⟨i, -, hi⟩ := exists_mem_zip hshown.flip hx
    exact ⟨i, hi⟩
  have hlists : ∀ i x, (i, x) ∈ shown.zip facts → x.detail = .full →
      g.distance sel.seeds i < doc.contextRadius → g.ListsAll i x := by
    intro i x hix hfull hi
    rw [hcontextRadius] at hi
    exact (List.forall₂_zip hshown hix).listsAll hp hexact hid hfull hi
  refine ⟨sel, hsel, shown, hperm, hshown, ?_, ?_, hlists, ?_⟩
  · intro x hx refs hrefs ref href
    obtain ⟨i, hxi⟩ := hfact x hx
    obtain ⟨j, hj, m, hm, hmref⟩ := hxi.exists_of_mem hrefs href
    rw [hid] at hmref
    obtain ⟨y, hjy, hy⟩ := exists_mem_zip hshown (hperm.mem_iff.mpr hj)
    obtain ⟨-, m', hm', -, hyid⟩ := Graph.facts?_eq_some hy.facts
    obtain rfl := Option.some.inj (hm.symm.trans hm')
    exact ⟨j, y, m, hjy, hm, hmref, fun hshows => hmref ▸ hyid hshows⟩
  · intro x hx y hy hxfull hyfull
    obtain ⟨i, hxi⟩ := hfact x hx
    obtain ⟨k, hyk⟩ := hfact y hy
    exact hxi.agree hids hp hexact.coherent hid hyk hxfull hyfull
  · intro hlt i x hix hfull
    -- what is in full is within the full radius
    have hi := (hexact.mem_full i).mp ((List.forall₂_zip hshown hix).full.mp hfull)
    rw [hfullRadius, Graph.select_fullRadius hsel] at hlt
    exact hlists i x hix hfull (hi.trans_lt (Nat.cast_lt.mpr hlt))

/-- The called function is the seed and the only one in full. It lists its caller, which the outline
reaches. -/
theorem slice_references_innerCall :
    ({ refMode := .id } : Options).includeChildren = true ∧
    ({ refMode := .id } : Options).refMode = .id ∧
    ∃ doc, (ofSource Graph.innerCall).slice ⟨["g"], 0, 1⟩ { refMode := .id } = .ok doc ∧
    (Outline.flattenAll doc.nodes).map (fun x => (x.id, x.calledBy)) = [
      (some "function@1:0-1:14", some ["function@1:27-1:44"]),
      (some "function@1:14-1:45", none), (some "function@1:27-1:44", none)] ∧
    ∃ sel, (ofSource Graph.innerCall).graph.select ⟨["g"], 0, 1⟩ = .ok sel ∧
    ∃ shown : List Nat, shown.Perm sel.included.toList ∧
      List.Forall₂ ((ofSource Graph.innerCall).graph.ShownAs sel { refMode := .id }) shown
        (Outline.flattenAll doc.nodes) ∧
      (∀ x ∈ Outline.flattenAll doc.nodes, ∀ refs,
        x.calls = some refs ∨ x.calledBy = some refs → ∀ ref ∈ refs,
          ∃ j y m, (j, y) ∈ shown.zip (Outline.flattenAll doc.nodes) ∧
            (ofSource Graph.innerCall).graph.node? j = some m ∧ m.id = ref ∧
            (y.detail = .full ∨ StructuralField.id ∈ StructuralField.defaults →
              y.id = some ref)) ∧
      (∀ x ∈ Outline.flattenAll doc.nodes, ∀ y ∈ Outline.flattenAll doc.nodes,
        x.detail = .full → y.detail = .full → x.Agree y) ∧
      (∀ i x, (i, x) ∈ shown.zip (Outline.flattenAll doc.nodes) → x.detail = .full →
        (ofSource Graph.innerCall).graph.distance sel.seeds i < doc.contextRadius →
          (ofSource Graph.innerCall).graph.ListsAll i x) ∧
      (doc.fullRadius < doc.contextRadius →
        ∀ i x, (i, x) ∈ shown.zip (Outline.flattenAll doc.nodes) → x.detail = .full →
          (ofSource Graph.innerCall).graph.ListsAll i x) := by
  have hsite : ∃ s ∈ Graph.innerCall.tree.sites,
      s.heading? Graph.innerCall.text.toList = some ⟨.function, "g", ""⟩ := by decide +kernel
  obtain ⟨site, hsite, hheading⟩ := hsite
  obtain ⟨doc, hslice⟩ :=
    exists_slice_name Graph.innerCall hsite hheading (o := { refMode := .id }) rfl 0 1
  obtain ⟨sel, hsel, hrefs⟩ :=
    slice_references Graph.innerCall ⟨["g"], 0, 1⟩ { refMode := .id } rfl rfl hslice
  obtain ⟨-, hnodes⟩ := slice_innerCall rfl hsel hslice
  have hlisted : (Graph.innerCallGraph.project? (Graph.aroundCalled 0) { refMode := .id }).map
      (fun nodes => (Outline.flattenAll nodes).map fun x => (x.id, x.calledBy)) = some [
        (some "function@1:0-1:14", some ["function@1:27-1:44"]),
        (some "function@1:14-1:45", none), (some "function@1:27-1:44", none)] := by
    decide +kernel
  rw [hnodes] at hlisted
  exact ⟨rfl, rfl, doc, hslice, Option.some.inj hlisted, sel, hsel, hrefs⟩

end Analysis

end CallVicinity
