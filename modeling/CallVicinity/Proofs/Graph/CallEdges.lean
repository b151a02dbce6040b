import Mathlib.Combinatorics.Enumerative.DoubleCounting
import CallVicinity.Proofs.Graph.Freeze

/-!
# Call edges after any passes

The frozen graph lists every call edge twice, at its caller and at its callee. The two lists come
from two sets of the draft, each renumbered by itself, and they agree:

> `Draft.freeze_paired`: a lawful draft freezes to a graph in which one declaration is among the
> calls of another one exactly if this one is among its callers.

So the edges can be counted at either end (`Graph.Paired.edgeCount_eq`). The count of a frozen graph
is that of the draft (`Draft.freeze_edgeCount`), and a pass over the calls reports exactly by how
much it grew. A draft is *settled* if every call has its edges already. A pass over the calls
settles it, linking keeps it settled, and on a settled draft the pass does nothing
(`Draft.Settled.linkCalls_eq`).
-/

namespace CallVicinity

/-- Declaration `i` lists declaration `j` among its calls. -/
def Graph.Calls (g : Graph) (i j : Nat) : Prop :=
  ∃ n, g.node? i = some n ∧ j ∈ n.calls

/-- Declaration `j` lists declaration `i` among its callers. -/
def Graph.CalledBy (g : Graph) (j i : Nat) : Prop :=
  ∃ n, g.node? j = some n ∧ i ∈ n.calledBy

theorem Graph.mem_calls_iff {g : Graph} {i j : Nat} {n : Declaration} (hn : g.node? i = some n) :
    j ∈ n.calls ↔ g.Calls i j := by
  unfold Calls
  rw [hn]
  simp

theorem Graph.mem_calledBy_iff {g : Graph} {i j : Nat} {n : Declaration}
    (hn : g.node? j = some n) : i ∈ n.calledBy ↔ g.CalledBy j i := by
  unfold CalledBy
  rw [hn]
  simp

/-- Every call edge is listed at both of its ends. -/
def Graph.Paired (g : Graph) : Prop :=
  ∀ i j, g.Calls i j ↔ g.CalledBy j i

/-! ## Counting at either end -/

theorem IndexSet.size_eq_card (s : IndexSet) : s.size = s.toList.toFinset.card :=
  (List.toFinset_card_of_nodup s.toList_nodup).symm

open Classical in
/-- One of the sets of the declarations, summed up, counts the pairs that it lists. -/
theorem Graph.sum_sizes {g : Graph} {side : Declaration → IndexSet} {R : Nat → Nat → Prop}
    (hside : ∀ {i n}, g.node? i = some n → ∀ j, j ∈ side n ↔ R i j)
    (hin : ∀ {i j}, R i j → j < g.size) :
    g.nodes.toList.foldr (fun n total => (side n).size + total) 0
      = ∑ i ∈ Finset.range g.size, ((Finset.range g.size).bipartiteAbove R i).card := by
  have hsize : ∀ {i n}, g.node? i = some n →
      (side n).size = ((Finset.range g.size).bipartiteAbove R i).card := by
    intro i n hn
    rw [IndexSet.size_eq_card]
    congr 1
    ext j
    rw [List.mem_toFinset, IndexSet.mem_toList, hside hn, Finset.mem_bipartiteAbove,
      Finset.mem_range]
    exact ⟨fun h => ⟨hin h, h⟩, And.right⟩
  have hlist : g.nodes.toList.map (fun n => (side n).size)
      = (List.range g.size).map fun i => ((Finset.range g.size).bipartiteAbove R i).card := by
    refine List.ext_getElem (by rw [List.length_map, List.length_map, List.length_range]; rfl) ?_
    intro i hi _
    rw [List.length_map] at hi
    rw [List.getElem_map, List.getElem_map, List.getElem_range, Array.getElem_toList]
    exact hsize (Array.getElem?_eq_getElem hi)
  calc g.nodes.toList.foldr (fun n total => (side n).size + total) 0
      = (g.nodes.toList.map fun n => (side n).size).sum := by
        rw [List.sum_eq_foldr, List.foldr_map]
    _ = _ := by
        rw [hlist]
        rfl

open Classical in
/-- **A graph that lists every edge at both ends has as many callers as calls.** -/
theorem Graph.Paired.edgeCount_eq {g : Graph} (hg : g.Paired) :
    g.edgeCount = g.nodes.toList.foldr (fun n total => n.calledBy.size + total) 0 := by
  have hlt : ∀ {i j}, g.Calls i j → i < g.size ∧ j < g.size := by
    intro i j h
    obtain ⟨m, hm, -⟩ := (hg i j).mp h
    obtain ⟨n, hn, -⟩ := h
    exact ⟨node?_lt hn, node?_lt hm⟩
  have hcalls := Graph.sum_sizes (g := g) (fun hn _ => mem_calls_iff hn) fun h => (hlt h).2
  have hcallers := Graph.sum_sizes (g := g) (R := fun j i => g.Calls i j)
    (fun hn _ => (mem_calledBy_iff hn).trans (hg _ _).symm) fun h => (hlt h).1
  rw [hcallers]
  exact hcalls.trans (Finset.sum_card_bipartiteAbove_eq_sum_card_bipartiteBelow g.Calls)

namespace Draft

/-! ## Renumbered slots -/

section Renumbered

variable {d : Draft} {slots : IndexSet}

/-- The indexes of a set of slots in use. -/
theorem mem_renumbered (hin : ∀ t ∈ slots, t < d.records.size) {j : Nat} :
    j ∈ renumbered d.ordered slots ↔ ∃ q t, d.ordered[j]? = some (q, t) ∧ t ∈ slots := by
  unfold renumbered
  rw [IndexSet.mem_ofList]
  constructor
  · intro hj
    obtain ⟨t, ht, rfl⟩ := List.mem_map.mp hj
    exact ⟨_, t, ordered_position (Array.getElem?_eq_getElem (hin t ht)), ht⟩
  · intro h
    obtain ⟨q, t, hj, ht⟩ := h
    exact List.mem_map.mpr ⟨t, ht, position_of_ordered hj⟩

/-- Renumbering keeps slots in use apart. -/
theorem size_renumbered (hin : ∀ t ∈ slots, t < d.records.size) :
    (renumbered d.ordered slots).size = slots.size := by
  unfold renumbered
  rw [IndexSet.size_ofList, List.length_map]
  · rfl
  · refine slots.toList_nodup.map_on ?_
    intro s hs t ht hpos
    exact position_inj (hin s hs) (hin t ht) hpos

end Renumbered

/-! ## Both ends of the frozen edges -/

section Frozen

variable {d : Draft} {sites : List Site} {source : List Char}

/-- A frozen set lists the declarations whose slots the set of the record lists. -/
theorem freeze_lists {side : Record → IndexSet} {frozen : Declaration → IndexSet}
    (hfrozen : ∀ i r, frozen (declaration source d.ordered i r) = renumbered d.ordered (side r))
    (hin : ∀ {s t}, d.Lists side s t → t < d.records.size) {i j : Nat} :
    (∃ n, (d.freeze source).node? i = some n ∧ j ∈ frozen n) ↔
      ∃ r s q t, d.ordered[i]? = some (r, s) ∧ d.ordered[j]? = some (q, t) ∧ d.Lists side s t := by
  constructor
  · intro h
    obtain ⟨n, hn, hj⟩ := h
    obtain ⟨r, s, hi, rfl⟩ := freeze_node?_eq_some.mp hn
    have hr := record_of_ordered hi
    rw [hfrozen] at hj
    obtain ⟨q, t, hjt, ht⟩ := (mem_renumbered fun t ht => hin ⟨r, hr, ht⟩).mp hj
    exact ⟨r, s, q, t, hi, hjt, r, hr, ht⟩
  · intro h
    obtain ⟨r, s, q, t, hi, hjt, r', hr, ht⟩ := h
    obtain rfl := Option.some.inj ((record_of_ordered hi).symm.trans hr)
    refine ⟨_, freeze_node?_eq_some.mpr ⟨r, s, hi, rfl⟩, ?_⟩
    rw [hfrozen]
    exact (mem_renumbered fun t ht => hin ⟨r, hr, ht⟩).mpr ⟨q, t, hjt, ht⟩

/-- The draft has an edge from the slot of declaration `i` to the slot of declaration `j`. -/
def Joins (d : Draft) (i j : Nat) : Prop :=
  ∃ r s q t, d.ordered[i]? = some (r, s) ∧ d.ordered[j]? = some (q, t) ∧ d.Calls s t

/-- **The calls of the frozen graph are those of the draft.** -/
theorem freeze_calls (hd : d.Lawful sites) {i j : Nat} :
    (d.freeze source).Calls i j ↔ d.Joins i j :=
  freeze_lists (fun _ _ => rfl) fun h => (hd.paired.lt_size h).2

/-- **The callers of the frozen graph are those of the draft**, which are paired with its calls. -/
theorem freeze_calledBy (hd : d.Lawful sites) {i j : Nat} :
    (d.freeze source).CalledBy j i ↔ d.Joins i j := by
  have hlists : (d.freeze source).CalledBy j i ↔
      ∃ q t r s, d.ordered[j]? = some (q, t) ∧ d.ordered[i]? = some (r, s) ∧ d.CalledBy t s :=
    freeze_lists (fun _ _ => rfl) fun h => ((hd.paired _ _).mpr h).lt_size
  rw [hlists]
  constructor
  · intro h
    obtain ⟨q, t, r, s, hj, hi, hcalled⟩ := h
    exact ⟨r, s, q, t, hi, hj, (hd.paired s t).mpr hcalled⟩
  · intro h
    obtain ⟨r, s, q, t, hi, hj, hcalls⟩ := h
    exact ⟨q, t, r, s, hj, hi, (hd.paired s t).mp hcalls⟩

/-- **A lawful draft freezes to a graph that lists every edge at both ends.** -/
theorem freeze_paired (hd : d.Lawful sites) (source : List Char) :
    (d.freeze source).Paired := by
  intro i j
  rw [freeze_calls hd, freeze_calledBy hd]

/-- Both ends of an edge are declarations of the frozen graph. -/
theorem Joins.lt_size {i j : Nat} (h : d.Joins i j) :
    i < (d.freeze source).size ∧ j < (d.freeze source).size := by
  obtain ⟨r, s, q, t, hi, hj, -⟩ := h
  exact ⟨Graph.node?_lt (freeze_node?_eq_some.mpr ⟨r, s, hi, rfl⟩),
    Graph.node?_lt (freeze_node?_eq_some.mpr ⟨q, t, hj, rfl⟩)⟩

/-- **The edges of the frozen graph are as many as those of the draft.** -/
theorem freeze_edgeCount (hd : d.Lawful sites) :
    (d.freeze source).edgeCount = d.callCount := by
  have hnodes : (d.freeze source).nodes.toList.map (·.calls.size)
      = d.ordered.map (·.1.calls.size) := by
    show (d.ordered.zipIdx.map fun r => declaration source d.ordered r.2 r.1.1).map _ = _
    rw [← List.zipIdx_map_fst 0 d.ordered, List.map_map, List.map_map, List.zipIdx_map_fst]
    refine List.map_congr_left fun r hr => size_renumbered fun t ht => ?_
    have hrec := mem_ordered.mp (List.fst_mem_of_mem_zipIdx hr)
    exact (hd.paired.lt_size ⟨_, hrec, ht⟩).2
  have hperm := (d.ordered_perm.map (·.1.calls.size)).sum_eq
  calc (d.freeze source).edgeCount
      = ((d.freeze source).nodes.toList.map (·.calls.size)).sum := by
        rw [List.sum_eq_foldr, List.foldr_map]
        rfl
    _ = (d.records.toList.zipIdx.map (·.1.calls.size)).sum := by rw [hnodes, hperm]
    _ = d.callCount := by
        unfold callCount
        nth_rewrite 2 [← List.zipIdx_map_fst 0 d.records.toList]
        rw [List.sum_eq_foldr, List.foldr_map, List.foldr_map]

end Frozen

/-! ## Settled drafts -/

/-- Every call has all of its edges. -/
def Settled (d : Draft) (source : List Char) (sites : List Site) : Prop :=
  ∀ s ∈ sites, ∀ e ∈ d.edgesAt source s, d.Calls e.1 e.2

section Settled

variable {d : Draft} {source : List Char} {sites : List Site}

/-- The pass over the calls settles a draft. -/
theorem linkCalls_settled (d : Draft) (source : List Char) (sites : List Site) :
    (d.linkCalls source sites).1.Settled source sites := by
  intro s hs e he
  rw [edgesAt_congr (d.linkCalls_entries source sites)] at he
  exact linkCalls_calls.mpr (Or.inr ⟨s, hs, he⟩)

/-- On a settled draft the pass over the calls changes nothing and reports nothing. -/
theorem Settled.linkCalls_eq (h : d.Settled source sites) : d.linkCalls source sites = (d, 0) := by
  refine foldl_addEdge_of_calls _ (d, 0) ?_
  intro e he
  obtain ⟨s, hs, hes⟩ := List.mem_flatMap.mp he
  exact h s hs e hes

/-- A pass that records nothing keeps a draft settled. -/
theorem Settled.run (h : d.Settled source sites) {p : Pass} (hp : p ≠ .classes ∧ p ≠ .functions) :
    (d.run source sites p).Settled source sites := by
  cases p with
  | classes => exact absurd rfl hp.1
  | functions => exact absurd rfl hp.2
  | ownership =>
    intro s hs e he
    have hsame : d.linkOwners.edgesAt source s = d.edgesAt source s :=
      edgesAt_congr d.linkOwners_entries source s
    exact (linkOwners_lists fun _ _ => rfl).mpr (h s hs e (hsame ▸ he))
  | calls => exact linkCalls_settled d source sites

/-- Passes that record nothing keep a draft settled. -/
theorem Settled.runAll : ∀ (passes : List Pass) {d : Draft}, d.Settled source sites →
    (∀ p ∈ passes, p ≠ .classes ∧ p ≠ .functions) →
      (d.runAll source sites passes).Settled source sites := by
  intro passes
  induction passes with
  | nil => intro d h _; exact h
  | cons p passes ih =>
    intro d h hps
    exact ih (h.run (hps p List.mem_cons_self)) fun q hq => hps q (List.mem_cons_of_mem _ hq)

end Settled

theorem runAll_append (d : Draft) (source : List Char) (sites : List Site)
    (before after : List Pass) : d.runAll source sites (before ++ after)
      = (d.runAll source sites before).runAll source sites after :=
  List.foldl_append

/-- A pass over the calls reports by how much the number of frozen edges grows. -/
theorem linkCalls_edgeCount {d : Draft} {sites : List Site} {source : List Char}
    (hd : d.Lawful sites) : ((d.linkCalls source sites).1.freeze source).edgeCount
      = (d.freeze source).edgeCount + (d.linkCalls source sites).2 := by
  rw [freeze_edgeCount (linkCalls_lawful hd sites), freeze_edgeCount hd, linkCalls_callCount]

/-- **Call edges after any passes.** Whatever passes were run over a tree, the frozen graph lists
every edge at both of its ends and only in range. What a pass over the calls reports is how much the
number of edges grows by it, and such a pass changes nothing and reports nothing if there was one
before and nothing was recorded since. -/
theorem runAll_callEdges (source : List Char) (tree : Node) (passes : List Pass) :
    let run := Draft.empty.runAll source tree.sites
    let g := (run passes).freeze source
    (∀ i n, g.node? i = some n →
      (∀ j ∈ n.calls, j < g.size) ∧ ∀ j ∈ n.calledBy, j < g.size) ∧
    (∀ i j n m, g.node? i = some n → g.node? j = some m → (j ∈ n.calls ↔ i ∈ m.calledBy)) ∧
    g.edgeCount = g.nodes.toList.foldr (fun n total => n.calledBy.size + total) 0 ∧
    (∀ before after, passes = before ++ Pass.calls :: after →
      ∃ added, (run before).report? source tree.sites .calls = some added ∧
        ((run (before ++ [Pass.calls])).freeze source).edgeCount
          = ((run before).freeze source).edgeCount + added) ∧
    ∀ before between after,
      passes = before ++ Pass.calls :: (between ++ Pass.calls :: after) →
      (∀ p ∈ between, p ≠ Pass.classes ∧ p ≠ Pass.functions) →
        (run (before ++ Pass.calls :: between)).report? source tree.sites .calls = some 0 ∧
        run (before ++ Pass.calls :: (between ++ [Pass.calls]))
          = run (before ++ Pass.calls :: between) := by
  intro run g
  have hlawful : ∀ ps, (run ps).Lawful tree.sites :=
    fun ps => runAll_lawful ps (empty_lawful tree.sites)
  have hd := hlawful passes
  refine ⟨?_, ?_, ?_, ?_, ?_⟩
  · intro i n hn
    refine ⟨fun j hj => ?_, fun j hj => ?_⟩
    · exact ((freeze_calls hd).mp ((Graph.mem_calls_iff hn).mp hj)).lt_size.2
    · exact ((freeze_calledBy hd).mp ((Graph.mem_calledBy_iff hn).mp hj)).lt_size.1
  · intro i j n m hn hm
    rw [Graph.mem_calls_iff hn, Graph.mem_calledBy_iff hm]
    exact freeze_paired hd source i j
  · exact (freeze_paired hd source).edgeCount_eq
  · intro before after _
    refine ⟨_, rfl, ?_⟩
    dsimp only [run]
    rw [runAll_append]
    exact linkCalls_edgeCount (hlawful before)
  · intro before between after _ hbetween
    have hsettled : (run (before ++ Pass.calls :: between)).Settled source tree.sites := by
      dsimp only [run]
      rw [runAll_append]
      exact (linkCalls_settled _ source tree.sites).runAll between hbetween
    refine ⟨congrArg some (congrArg Prod.snd hsettled.linkCalls_eq), ?_⟩
    rw [← List.cons_append, ← List.append_assoc]
    dsimp only [run]
    rw [runAll_append]
    exact congrArg Prod.fst hsettled.linkCalls_eq

end Draft

end CallVicinity
