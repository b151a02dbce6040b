import CallVicinity.Proofs.Graph.Freeze

/-!
# Ownership after any passes

A graph can be frozen at any point of any run of passes: with passes left out, repeated or in
another order, with nodes recorded twice and owners that are out of date. Ownership is a forest all
the same, because an owner is always a recorded node *strictly above* in the tree
(`Draft.Lawful.owned`), and the depth in the tree cannot get smaller forever:

> `Draft.runAll_wellNested`: whatever the passes were, the frozen graph is well nested.

`Graph.WellNested` spells out what that means for the owners, the children, the roots, the walk to
the top and the forest.
-/

namespace CallVicinity

/-- The declarations of a graph, each at a site of a tree, are nested in their owners. -/
structure Graph.WellNested (g : Graph) (tree : Node) (site? : Nat → Option Site) : Prop where
  /-- Every declaration is at a site of the tree, and nothing else is. -/
  placed : ∀ i, i < g.size ↔ ∃ s ∈ tree.sites, site? i = some s
  /-- An owner is a declaration, and its site is strictly above the site of what it owns. -/
  owner_above : ∀ i p, g.Owner i p →
    p < g.size ∧ ∃ s t, site? i = some s ∧ site? p = some t ∧ s ∈ t.below
  /-- Going up from a declaration meets no declaration twice and ends at one without an owner, after
  at most as many steps as there are nodes above in the tree. -/
  walk : ∀ i n s, g.node? i = some n → site? i = some s →
    ∃ as, g.ancestors? i = some as ∧ g.OwnerChain n.owner as ∧ (i :: as).Nodup ∧
      as.length ≤ s.above.length
  /-- The children of a declaration are what it owns. -/
  mem_children : ∀ p n, g.node? p = some n → ∀ i, i ∈ n.children ↔ g.Owner i p
  children_ascending : ∀ p n, g.node? p = some n → n.children.Pairwise (· < ·)
  /-- The roots are the declarations without an owner. -/
  roots_ownerless : ∀ i, i ∈ g.roots ↔ ∃ n, g.node? i = some n ∧ n.owner = none
  roots_in_order : g.roots.Pairwise (· < ·)
  /-- The ownership forest exists, unfolds the roots and all children, and holds every declaration
  exactly once. -/
  forest : ∃ f, g.forest? = some f ∧ f.map Tree.index = g.roots ∧ Tree.CompleteAll g f ∧
    f.indexes.Perm (List.range g.size)

namespace Draft

/-- The declarations of the frozen graph of a lawful draft are at sites of the tree. -/
theorem siteAt?_placed {d : Draft} {sites : List Site} (hd : d.Lawful sites) (source : List Char)
    (i : Nat) : i < (d.freeze source).size ↔ ∃ s ∈ sites, d.siteAt? i = some s := by
  rw [freeze_size, ← length_ordered]
  constructor
  · intro hi
    have hget := List.getElem?_eq_getElem hi
    exact ⟨_, site_of_ordered hd hget, siteAt?_of_ordered hget⟩
  · intro h
    obtain ⟨s, -, hs⟩ := h
    obtain ⟨r, hr, -⟩ := Option.map_eq_some_iff.mp hs
    exact (List.getElem?_eq_some_iff.mp hr).1

/-- The owner of a declaration is strictly above it in the tree. -/
theorem owner_site_above {d : Draft} {tree : Node} {source : List Char} (hd : d.Lawful tree.sites)
    {i p : Nat} (h : (d.freeze source).Owner i p) :
    ∃ s t, d.siteAt? i = some s ∧ d.siteAt? p = some t ∧ s ∈ t.below := by
  obtain ⟨r, slot, q, o, hi, -, hp, habove⟩ := freeze_owner hd h
  have hr := site_of_ordered hd hi
  have hq := site_of_ordered hd hp
  exact ⟨r.site, q.site, siteAt?_of_ordered hi, siteAt?_of_ordered hp,
    (Node.mem_below_iff hq hr).mpr habove⟩

/-- **A lawful draft freezes to a well nested graph.** -/
theorem freeze_wellNested {d : Draft} {tree : Node} (hd : d.Lawful tree.sites)
    (source : List Char) : (d.freeze source).WellNested tree d.siteAt? := by
  have hg := freeze_owned hd source
  refine ⟨siteAt?_placed hd source, ?_, ?_, ?_, ?_, fun i => Graph.mem_roots,
    Graph.roots_ascending _, ?_⟩
  · intro i p h
    exact ⟨(hg.upward h).1, owner_site_above hd h⟩
  · intro i n s hn hs
    obtain ⟨as, hchain, -⟩ := hg.exists_owners hn
    refine ⟨as, hg.ancestors?_eq hn hchain, hchain, (Graph.OwnerChain.step hn hchain).nodup hg, ?_⟩
    -- owners are less deep, and the depth is the number of nodes above
    have hlen : as.length ≤ d.depthAt i :=
      hchain.length_le_depth hg fun p hp => (hg.upward ⟨n, hn, hp⟩).2
    obtain ⟨t, ht, hit⟩ := (siteAt?_placed hd source i).mp (Graph.node?_lt hn)
    rw [hs] at hit
    rw [depthAt_eq hs] at hlen
    rw [← Option.some.inj hit] at ht
    rw [Node.sites_depth ht]
    exact hlen
  · intro p n hn i
    exact hg.children hn i
  · intro p n hn
    exact hg.ascending hn
  · obtain ⟨f, hf, hroots, hall⟩ := hg.exists_forest
    exact ⟨f, hf, hroots, hall, hg.indexes_perm_range hroots hall⟩

/-- **Ownership is a forest after any passes.** Whatever passes were run over a tree, in whatever
order and however often, the declarations of the frozen graph are nested in their owners, and each
of them has the extent and the text of the node that it is placed at. -/
theorem runAll_wellNested (source : List Char) (tree : Node) (passes : List Pass) :
    let d := Draft.empty.runAll source tree.sites passes
    (d.freeze source).WellNested tree d.siteAt? ∧
      ∀ i n s, (d.freeze source).node? i = some n → d.siteAt? i = some s →
        n.span = s.node.label.span source ∧ n.source = String.ofList (s.node.text source) := by
  intro d
  have hd : d.Lawful tree.sites := runAll_lawful passes (empty_lawful tree.sites)
  refine ⟨freeze_wellNested hd source, ?_⟩
  intro i n s hn hs
  obtain ⟨r, slot, hi, rfl⟩ := freeze_node?_eq_some.mp hn
  rw [siteAt?_of_ordered hi] at hs
  rw [← Option.some.inj hs]
  exact ⟨rfl, rfl⟩

end Draft

end CallVicinity
