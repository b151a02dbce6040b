import CallVicinity.Proofs.Graph.Owners

/-!
# The ownership forest

`Graph.forest?` nests the declarations in their owners, as many levels deep as the graph has
declarations. In an owned graph that bound cuts nothing off:

> `Owned.exists_forest`: the forest exists, its trees are those of the roots, and every tree in it
> shows the declaration at its top with all of its children (`Tree.Complete`).

Completeness says what is where: a declaration is in the tree of another one exactly if it is owned
by it, directly or not (`Owned.mem_indexes`). Two trees side by side share nothing, so the forest
holds every declaration exactly once (`Owned.indexes_perm_range`), and keeping a set that is closed
under owners filters the listing of the forest and does nothing else (`Owned.indexes_restrict`).
-/

namespace CallVicinity

/-! ## Listings without depths -/

mutual

/-- The indexes of a tree in pre-order. -/
def Tree.indexes : Tree → List Nat
  | .node i ts => i :: Tree.indexesAll ts

/-- The indexes of trees side by side in pre-order. -/
def Tree.indexesAll : List Tree → List Nat
  | [] => []
  | t :: ts => t.indexes ++ Tree.indexesAll ts

end

mutual

theorem Tree.map_snd_flattenAt (depth : Nat) : ∀ t : Tree,
    (t.flattenAt depth).map (·.2) = t.indexes
  | .node i ts => by
    rw [Tree.flattenAt, Tree.indexes, List.map_cons, Tree.map_snd_flattenForestAt]

theorem Tree.map_snd_flattenForestAt (depth : Nat) : ∀ ts : List Tree,
    (Tree.flattenForestAt depth ts).map (·.2) = Tree.indexesAll ts
  | [] => rfl
  | t :: ts => by
    rw [Tree.flattenForestAt, Tree.indexesAll, List.map_append, Tree.map_snd_flattenAt,
      Tree.map_snd_flattenForestAt]

end

theorem Forest.indexes_eq (f : Forest) : f.indexes = Tree.indexesAll f :=
  Tree.map_snd_flattenForestAt 0 f

mutual

/-- Restricting a tree adds nothing to it. -/
theorem Tree.indexes_restrict_subset (keep : IndexSet) : ∀ t : Tree,
    (t.restrict keep).indexes ⊆ t.indexes
  | .node i ts => by
    rw [Tree.restrict, Tree.indexes, Tree.indexes]
    exact List.cons_subset_cons i (Tree.indexesAll_restrict_subset keep ts)

theorem Tree.indexesAll_restrict_subset (keep : IndexSet) : ∀ ts : List Tree,
    Tree.indexesAll (Forest.restrict keep ts) ⊆ Tree.indexesAll ts
  | [] => List.Subset.refl _
  | t :: ts => by
    have hrest := Tree.indexesAll_restrict_subset keep ts
    rw [Forest.restrict, Tree.indexesAll]
    split
    next =>
      rw [Tree.indexesAll]
      refine List.append_subset.mpr ⟨?_, List.subset_append_of_subset_right _ hrest⟩
      exact List.subset_append_of_subset_left _ (Tree.indexes_restrict_subset keep t)
    next => exact List.subset_append_of_subset_right _ hrest

end

/-! ## Complete trees -/

mutual

/-- Every declaration in the tree is shown with all of its children, in their order. -/
def Tree.Complete (g : Graph) : Tree → Prop
  | .node i ts =>
    (∃ n, g.node? i = some n ∧ ts.map Tree.index = n.children) ∧ Tree.CompleteAll g ts

/-- Every tree of a list is complete. -/
def Tree.CompleteAll (g : Graph) : List Tree → Prop
  | [] => True
  | t :: ts => t.Complete g ∧ Tree.CompleteAll g ts

end

namespace Graph

/-- Trees that were found one by one for a list of declarations are the trees of these. -/
theorem map_index_of_forall₂ {g : Graph} {is : List Nat} {ts : List Tree}
    (h : List.Forall₂ (fun i t => t.index = i ∧ t.Complete g) is ts) :
    ts.map Tree.index = is ∧ Tree.CompleteAll g ts := by
  induction h with
  | nil => exact ⟨rfl, trivial⟩
  | @cons i t is ts hit _ ih =>
    rw [List.map_cons, hit.1, ih.1]
    exact ⟨rfl, hit.2, ih.2⟩

section Forest

variable {g : Graph} {depth : Nat → Nat}

/-- The bounded unfolding of a declaration is complete if the bound reaches from the chain of its
owners to the size of the graph. -/
theorem Owned.exists_treeAt (hg : g.Owned depth) :
    ∀ (fuel : Nat) {i : Nat} {n : Declaration} {as : List Nat}, g.node? i = some n →
      g.OwnerChain n.owner as → g.size ≤ fuel + as.length →
      ∃ t, g.treeAt? fuel i = some t ∧ t.index = i ∧ t.Complete g := by
  intro fuel
  induction fuel with
  | zero =>
    intro i n as hn has hsize
    have := (OwnerChain.step hn has).length_lt_size hg
    omega
  | succ fuel ih =>
    intro i n as hn has hsize
    -- a child has one owner more than its parent, which pays for the level
    have hchild : ∀ c ∈ n.children,
        ∃ t, g.treeAt? fuel c = some t ∧ t.index = c ∧ t.Complete g := by
      intro c hc
      obtain ⟨m, hm, hmi⟩ := (hg.children hn c).mp hc
      have hchain : g.OwnerChain m.owner (i :: as) := by
        rw [hmi]; exact .step hn has
      refine ih hm hchain ?_
      rw [List.length_cons]
      omega
    obtain ⟨ts, hts, hall⟩ := exists_mapM hchild
    obtain ⟨hindex, hcomplete⟩ := map_index_of_forall₂ hall
    refine ⟨.node i ts, ?_, rfl, ?_⟩
    · show (do let n ← g.node? i; return Tree.node i (← n.children.mapM (g.treeAt? fuel)))
        = some (Tree.node i ts)
      rw [hn]
      show (do return Tree.node i (← n.children.mapM (g.treeAt? fuel))) = some (Tree.node i ts)
      rw [hts]
      rfl
    · rw [Tree.Complete]
      exact ⟨⟨n, hn, hindex⟩, hcomplete⟩

/-- **The ownership forest exists**: its trees are the complete trees of the roots. -/
theorem Owned.exists_forest (hg : g.Owned depth) :
    ∃ f, g.forest? = some f ∧ f.map Tree.index = g.roots ∧ Tree.CompleteAll g f := by
  have hroot : ∀ i ∈ g.roots,
      ∃ t, g.treeAt? g.size i = some t ∧ t.index = i ∧ t.Complete g := by
    intro i hi
    obtain ⟨n, hn, hnone⟩ := mem_roots.mp hi
    have hchain : g.OwnerChain n.owner [] := by
      rw [hnone]; exact .stop
    exact hg.exists_treeAt g.size hn hchain (Nat.le_refl _)
  obtain ⟨f, hf, hall⟩ := exists_mapM hroot
  exact ⟨f, hf, map_index_of_forall₂ hall⟩

/-! ## What is in a tree -/

/-- A declaration is at another one or owned by it through one of its children. -/
theorem Owned.reaches_iff (hg : g.Owned depth) {i j : Nat} {n : Declaration}
    (hn : g.node? i = some n) :
    Relation.ReflTransGen g.Owner j i ↔
      j = i ∨ ∃ c ∈ n.children, Relation.ReflTransGen g.Owner j c := by
  rw [Relation.ReflTransGen.cases_tail_iff]
  constructor
  · intro h
    rcases h with hE | hT
    · exact Or.inl hE.symm
    · obtain ⟨c, hjc, hci⟩ := hT
      exact Or.inr ⟨c, (hg.children hn c).mpr hci, hjc⟩
  · intro h
    rcases h with hE | hT
    · exact Or.inl hE.symm
    · obtain ⟨c, hc, hjc⟩ := hT
      exact Or.inr ⟨c, hjc, (hg.children hn c).mp hc⟩

mutual

/-- A complete tree holds what its top owns, directly or not, and the top itself. -/
theorem Owned.mem_indexes (hg : g.Owned depth) {j : Nat} :
    ∀ t : Tree, t.Complete g → (j ∈ t.indexes ↔ Relation.ReflTransGen g.Owner j t.index)
  | .node i ts => by
    intro ht
    rw [Tree.Complete] at ht
    obtain ⟨⟨n, hn, hts⟩, hall⟩ := ht
    rw [Tree.indexes, List.mem_cons, Owned.mem_indexesAll hg ts hall, hts]
    exact (hg.reaches_iff hn).symm

/-- Complete trees side by side hold what one of their tops owns. -/
theorem Owned.mem_indexesAll (hg : g.Owned depth) {j : Nat} :
    ∀ ts : List Tree, Tree.CompleteAll g ts →
      (j ∈ Tree.indexesAll ts ↔ ∃ c ∈ ts.map Tree.index, Relation.ReflTransGen g.Owner j c)
  | [] => by
    intro _
    simp [Tree.indexesAll]
  | t :: ts => by
    intro hts
    rw [Tree.CompleteAll] at hts
    rw [Tree.indexesAll, List.mem_append, Owned.mem_indexes hg t hts.1,
      Owned.mem_indexesAll hg ts hts.2, List.map_cons]
    simp only [List.mem_cons, exists_eq_or_imp]

end

/-! ## Nothing is in two trees -/

/-- Nothing is owned by both of two declarations. -/
def Apart (g : Graph) (c c' : Nat) : Prop :=
  ∀ j, Relation.ReflTransGen g.Owner j c → ¬ Relation.ReflTransGen g.Owner j c'

/-- Two declarations neither of which is above the other are apart. -/
theorem apart_of_not_above {c c' : Nat} (h : ¬ Relation.ReflTransGen g.Owner c c')
    (h' : ¬ Relation.ReflTransGen g.Owner c' c) : g.Apart c c' := by
  intro j hj hj'
  rcases Relation.ReflTransGen.total_of_right_unique Owner.unique hj hj' with hcc | hcc
  · exact h hcc
  · exact h' hcc

/-- A child of a declaration is not above another child of it: it is as deep. -/
theorem Owned.not_above_sibling (hg : g.Owned depth) {i c c' : Nat} (hc : g.Owner c i)
    (hc' : g.Owner c' i) (hne : c ≠ c') : ¬ Relation.ReflTransGen g.Owner c c' := by
  intro h
  rcases Relation.ReflTransGen.cases_head_iff.mp h with hE | hT
  · exact hne hE
  · obtain ⟨p, hp, hpc'⟩ := hT
    rw [Owner.unique hp hc] at hpc'
    have h1 := hg.depth_le hpc'
    have h2 := (hg.upward hc').2
    omega

/-- The children of a declaration are apart from each other. -/
theorem Owned.children_apart (hg : g.Owned depth) {i : Nat} {n : Declaration}
    (hn : g.node? i = some n) : n.children.Pairwise g.Apart := by
  refine (hg.ascending hn).imp_of_mem ?_
  intro c c' hc hc' hlt
  have ho := (hg.children hn c).mp hc
  have ho' := (hg.children hn c').mp hc'
  exact apart_of_not_above (hg.not_above_sibling ho ho' (Nat.ne_of_lt hlt))
    (hg.not_above_sibling ho' ho (Nat.ne_of_gt hlt))

theorem roots_ascending (g : Graph) : g.roots.Pairwise (· < ·) :=
  map_snd_filter_zipIdx_ascending _ _

/-- Nothing is above a root. -/
theorem eq_of_root_above {r a : Nat} (hr : r ∈ g.roots)
    (h : Relation.ReflTransGen g.Owner r a) : r = a := by
  rcases Relation.ReflTransGen.cases_head_iff.mp h with hE | hT
  · exact hE
  · obtain ⟨p, hp, -⟩ := hT
    obtain ⟨n, hn, hnone⟩ := mem_roots.mp hr
    rw [owner_iff hn, hnone] at hp
    exact absurd hp (by simp)

/-- The roots are apart from each other. -/
theorem roots_apart (g : Graph) : g.roots.Pairwise g.Apart := by
  refine g.roots_ascending.imp_of_mem ?_
  intro r r' hr hr' hlt
  exact apart_of_not_above (fun h => absurd (eq_of_root_above hr h) (Nat.ne_of_lt hlt))
    (fun h => absurd (eq_of_root_above hr' h) (Nat.ne_of_gt hlt))

mutual

/-- A complete tree repeats nothing. -/
theorem Owned.indexes_nodup (hg : g.Owned depth) :
    ∀ t : Tree, t.Complete g → t.indexes.Nodup
  | .node i ts => by
    intro ht
    rw [Tree.Complete] at ht
    obtain ⟨⟨n, hn, hts⟩, hall⟩ := ht
    rw [Tree.indexes]
    refine List.nodup_cons.mpr ⟨?_, Owned.indexesAll_nodup hg ts hall ?_⟩
    · -- the top is less deep than its children and all they own
      intro hmem
      rw [Owned.mem_indexesAll hg ts hall, hts] at hmem
      obtain ⟨c, hc, hic⟩ := hmem
      have h1 := hg.depth_le hic
      have h2 := (hg.upward ((hg.children hn c).mp hc)).2
      omega
    · rw [hts]
      exact hg.children_apart hn

/-- Complete trees side by side repeat nothing if their tops are apart. -/
theorem Owned.indexesAll_nodup (hg : g.Owned depth) :
    ∀ ts : List Tree, Tree.CompleteAll g ts → (ts.map Tree.index).Pairwise g.Apart →
      (Tree.indexesAll ts).Nodup
  | [] => by
    intro _ _
    exact List.nodup_nil
  | t :: ts => by
    intro hts hapart
    rw [Tree.CompleteAll] at hts
    rw [List.map_cons] at hapart
    obtain ⟨hfirst, hrest⟩ := List.pairwise_cons.mp hapart
    rw [Tree.indexesAll]
    refine List.nodup_append.mpr
      ⟨Owned.indexes_nodup hg t hts.1, Owned.indexesAll_nodup hg ts hts.2 hrest, ?_⟩
    intro j hj k hk hjk
    -- what is in both would be owned from two tops that are apart
    rw [← hjk] at hk
    obtain ⟨c, hc, hjc⟩ := (hg.mem_indexesAll ts hts.2).mp hk
    exact hfirst c hc j ((hg.mem_indexes t hts.1).mp hj) hjc

end

/-- **The forest holds every declaration exactly once.** -/
theorem Owned.indexes_perm_range (hg : g.Owned depth) {f : Forest}
    (hroots : f.map Tree.index = g.roots) (hall : Tree.CompleteAll g f) :
    f.indexes.Perm (List.range g.size) := by
  rw [Forest.indexes_eq]
  refine (List.perm_ext_iff_of_nodup ?_ List.nodup_range).mpr ?_
  · refine hg.indexesAll_nodup f hall ?_
    rw [hroots]
    exact g.roots_apart
  · intro j
    rw [hg.mem_indexesAll f hall, hroots, List.mem_range]
    constructor
    · intro h
      obtain ⟨r, hr, hjr⟩ := h
      rcases Relation.ReflTransGen.cases_head_iff.mp hjr with hE | hT
      · obtain ⟨n, hn, -⟩ := mem_roots.mp hr
        rw [hE]; exact node?_lt hn
      · obtain ⟨p, ⟨n, hn, -⟩, -⟩ := hT
        exact node?_lt hn
    · intro hj
      exact hg.exists_root (depth j + 1) j (Nat.lt_succ_self _) hj

theorem Owned.indexesAll_lt (hg : g.Owned depth) {f : Forest}
    (hroots : f.map Tree.index = g.roots) (hall : Tree.CompleteAll g f) {i : Nat}
    (hi : i ∈ Tree.indexesAll f) : i < g.size := by
  rw [← Forest.indexes_eq, (hg.indexes_perm_range hroots hall).mem_iff, List.mem_range] at hi
  exact hi

/-! ## Keeping a set that is closed under owners -/

/-- The owner of a member is a member. -/
def ClosedUp (g : Graph) (keep : IndexSet) : Prop :=
  ∀ i p, g.Owner i p → i ∈ keep → p ∈ keep

/-- All that is above a member of a closed set is a member. -/
theorem ClosedUp.mem_above {keep : IndexSet} (hk : g.ClosedUp keep) {i a : Nat}
    (h : Relation.ReflTransGen g.Owner i a) (hi : i ∈ keep) : a ∈ keep := by
  induction h with
  | refl => exact hi
  | tail _ hstep ih => exact hk _ _ hstep ih

mutual

/-- Restricting a complete tree to a closed set that holds its top keeps the members of the set. -/
theorem Owned.indexes_restrictTree (hg : g.Owned depth) {keep : IndexSet}
    (hk : g.ClosedUp keep) : ∀ t : Tree, t.Complete g → t.index ∈ keep →
      (t.restrict keep).indexes = t.indexes.filter fun i => decide (i ∈ keep)
  | .node i ts => by
    intro ht hi
    rw [Tree.Complete] at ht
    have hkept : decide (i ∈ keep) = true := decide_eq_true hi
    rw [Tree.restrict, Tree.indexes, Tree.indexes, Owned.indexes_restrict hg hk ts ht.2,
      List.filter_cons, if_pos hkept]

/-- Restricting complete trees to a closed set keeps the members of the set. A tree whose top is not
in the set goes as a whole, and nothing in it is in the set. -/
theorem Owned.indexes_restrict (hg : g.Owned depth) {keep : IndexSet}
    (hk : g.ClosedUp keep) : ∀ ts : List Tree, Tree.CompleteAll g ts →
      Tree.indexesAll (Forest.restrict keep ts)
        = (Tree.indexesAll ts).filter fun i => decide (i ∈ keep)
  | [] => by
    intro _
    rfl
  | t :: ts => by
    intro hts
    rw [Tree.CompleteAll] at hts
    rw [Forest.restrict, Tree.indexesAll, List.filter_append]
    by_cases ht : t.index ∈ keep
    · rw [if_pos ht, Tree.indexesAll, Owned.indexes_restrictTree hg hk t hts.1 ht,
        Owned.indexes_restrict hg hk ts hts.2]
    · have hgone : t.indexes.filter (fun i => decide (i ∈ keep)) = [] := by
        refine List.filter_eq_nil_iff.mpr ?_
        intro j hj hjk
        have hjt := (hg.mem_indexes t hts.1).mp hj
        exact ht (hk.mem_above hjt (of_decide_eq_true hjk))
      rw [if_neg ht, hgone, List.nil_append, Owned.indexes_restrict hg hk ts hts.2]

end

end Forest

end Graph

end CallVicinity
