import Mathlib.Data.List.Sort
import CallVicinity.Proofs.Graph.Callers
import CallVicinity.Proofs.Tree.Preorder

/-!
# Source order

Slots follow the order of recording, all classes before all functions, and owners are not the
nearest declarations around: what a class inside a function declares belongs to the function. Still
the indexes of a graph follow the text, in two ways:

> `Draft.siteAt?_built`: declaration `i` is the one at the `i`-th declared site in pre-order.

> `Graph.Owned.indexes_eq_range`: the forest of the owners lists the declarations as 0, 1, 2, ….

The first holds since the sort is by range, and ranges in pre-order ascend. The second needs that
all that a declaration owns comes before the next declaration with the same owner
(`Graph.Consecutive`). The two lie apart in the text, except that a class with a function around it
has its members for siblings; but such a class owns nothing (`Draft.not_below_sibling`).
-/

namespace CallVicinity

/-! ## The order of ranges -/

/-- Source order of ranges: by start, then the longer range first. -/
def Label.NotAfter (l m : Label) : Prop :=
  l.start < m.start ∨ l.start = m.start ∧ m.stop ≤ l.stop

/-- Ranges neither of which is after the other are the same range. -/
theorem Label.NotAfter.antisymm {l m : Label} (h : l.NotAfter m) (h' : m.NotAfter l) :
    l.start = m.start ∧ l.stop = m.stop := by
  unfold Label.NotAfter at h h'
  omega

/-- The declared nodes can be told apart by their ranges: no range is empty, and no two declared
nodes have the same range. -/
structure Node.Separated (tree : Node) (source : List Char) : Prop where
  nonempty : ∀ s ∈ tree.sites, (s.heading? source).isSome →
    s.node.label.start < s.node.label.stop
  distinct : ∀ s ∈ tree.sites, ∀ t ∈ tree.sites, (s.heading? source).isSome →
    (t.heading? source).isSome → s.node.label.start = t.node.label.start →
    s.node.label.stop = t.node.label.stop → s.address = t.address

namespace Draft

/-- The sort of the records is by range. -/
theorem ordered_sorted (d : Draft) :
    d.ordered.Pairwise fun a b => a.1.site.node.label.NotAfter b.1.site.node.label := by
  have hsorted : d.ordered.Pairwise fun a b => inOrder a b = true := by
    refine List.pairwise_mergeSort ?_ ?_ _
    · intro a b c
      simp only [inOrder, Bool.or_eq_true, Bool.and_eq_true, decide_eq_true_eq, beq_iff_eq]
      omega
    · intro a b
      simp only [inOrder, Bool.or_eq_true, Bool.and_eq_true, decide_eq_true_eq, beq_iff_eq]
      omega
  refine hsorted.imp ?_
  intro a b h
  simp only [inOrder, Bool.or_eq_true, Bool.and_eq_true, decide_eq_true_eq, beq_iff_eq] at h
  unfold Label.NotAfter
  omega

/-- Sorting keeps what is recorded. -/
theorem ordered_entries_perm (d : Draft) :
    (d.ordered.map fun r => (r.1.site, r.1.heading)).Perm d.entries := by
  have hrecords := d.ordered_perm.map Prod.fst
  rw [List.zipIdx_map_fst] at hrecords
  have hentries := hrecords.map fun r => (r.site, r.heading)
  rw [List.map_map] at hentries
  exact hentries

section Finished

variable {d : Draft} {source : List Char} {tree : Node}

/-- Every declaration is at a site of the tree that has a heading. -/
theorem Finished.site (hd : d.Finished source tree) {i : Nat} {s : Site}
    (hi : d.siteAt? i = some s) : s ∈ tree.sites ∧ (s.heading? source).isSome := by
  obtain ⟨⟨r, slot⟩, hr, rfl⟩ := Option.map_eq_some_iff.mp hi
  obtain ⟨hs, hh⟩ := hd.complete.mp (List.mem_of_getElem? (entry_of_ordered hr))
  exact ⟨hs, by rw [hh]; rfl⟩

/-- **There is one way to order the declarations of a tree by range.** A sorted listing of what is
recorded is the order of the indexes. -/
theorem Finished.ordered_eq (hd : d.Finished source tree) (hsep : tree.Separated source)
    {es : List (Site × Heading)} (hperm : es.Perm d.entries)
    (hsorted : es.Pairwise fun e f => e.1.node.label.NotAfter f.1.node.label) :
    d.ordered.map (fun r => (r.1.site, r.1.heading)) = es := by
  refine List.Perm.eq_of_pairwise ?_ (List.pairwise_map.mpr d.ordered_sorted) hsorted
    (d.ordered_entries_perm.trans hperm.symm)
  -- entries with one range are at one site, and the site has one heading
  intro e f he hf hef hfe
  obtain ⟨hes, heh⟩ := hd.complete.mp (d.ordered_entries_perm.mem_iff.mp he)
  obtain ⟨hfs, hfh⟩ := hd.complete.mp (hperm.mem_iff.mp hf)
  obtain ⟨hstart, hstop⟩ := hef.antisymm hfe
  have hsite : e.1 = f.1 := Node.sites_address_inj hes hfs
    (hsep.distinct _ hes _ hfs (by rw [heh]; rfl) (by rw [hfh]; rfl) hstart hstop)
  have hheading : e.2 = f.2 := by
    rw [hsite, hfh] at heh
    exact (Option.some.inj heh).symm
  exact Prod.ext hsite hheading

/-- The entries of a finished draft are the declared sites of the tree in pre-order, up to order. -/
theorem Finished.headed_perm (hd : d.Finished source tree) :
    (headed (·.heading? source) tree.sites).Perm d.entries := by
  refine (List.perm_ext_iff_of_nodup (List.Nodup.of_map _ (headed_addresses_nodup _ tree))
    (List.Nodup.of_map _ hd.once)).mpr ?_
  intro e
  rw [mem_headed, hd.complete]

end Finished

end Draft

/-! ## Indexes in pre-order -/

/-- The sites of a tree that are declared, in pre-order. -/
def Node.declared (tree : Node) (source : List Char) : List Site :=
  tree.sites.filter fun s => (s.heading? source).isSome

namespace Draft

theorem map_fst_headed (heading? : Site → Option Heading) (sites : List Site) :
    (headed heading? sites).map (·.1) = sites.filter fun s => (heading? s).isSome := by
  induction sites with
  | nil => rfl
  | cons s sites ih =>
    cases hs : heading? s with
    | none => rw [headed_cons_none hs, ih, List.filter_cons_of_neg (by simp [hs])]
    | some h =>
      rw [headed_cons_some hs, List.map_cons, ih, List.filter_cons_of_pos (by simp [hs])]

section Built

variable {source : List Char} {tree : Node}

/-- The declared sites of an orderly tree ascend in source order. -/
theorem headed_sorted (htree : ∀ s ∈ tree.sites, s.node.Orderly) (hsep : tree.Separated source) :
    (headed (·.heading? source) tree.sites).Pairwise
      fun e f => e.1.node.label.NotAfter f.1.node.label := by
  have hprecede : ((headed (·.heading? source) tree.sites).map (·.1)).Pairwise Site.Precedes :=
    (Node.sites_precede htree).sublist (headed_sublist _ _)
  refine (List.pairwise_map.mp hprecede).imp_of_mem ?_
  intro e f he _ hef
  obtain ⟨hes, heh⟩ := mem_headed.mp he
  unfold Label.NotAfter
  rcases hef with hbelow | hafter
  · obtain ⟨hstart, hstop⟩ := Node.below_inside htree hes hbelow
    omega
  · have hne := hsep.nonempty e.1 hes (by rw [heh]; rfl)
    omega

/-- **The indexes of declarations follow the pre-order of their sites.** -/
theorem siteAt?_built (htree : ∀ s ∈ tree.sites, s.node.Orderly) (hsep : tree.Separated source)
    (i : Nat) : (built source tree).siteAt? i = (tree.declared source)[i]? := by
  have hd := built_finished source tree
  have horder := hd.ordered_eq hsep hd.headed_perm (headed_sorted htree hsep)
  unfold Node.declared siteAt?
  rw [← map_fst_headed, ← horder, List.map_map, List.getElem?_map]
  rfl

/-- Of two declarations, the one with the smaller index precedes the other in the text. -/
theorem precedes_of_lt (htree : ∀ s ∈ tree.sites, s.node.Orderly) (hsep : tree.Separated source)
    {i k : Nat} {s t : Site} (hi : (built source tree).siteAt? i = some s)
    (hk : (built source tree).siteAt? k = some t) (hik : i < k) : s.Precedes t := by
  rw [siteAt?_built htree hsep] at hi hk
  have hpw : (tree.declared source).Pairwise Site.Precedes :=
    (Node.sites_precede htree).sublist List.filter_sublist
  obtain ⟨hilt, rfl⟩ := List.getElem?_eq_some_iff.mp hi
  obtain ⟨hklt, rfl⟩ := List.getElem?_eq_some_iff.mp hk
  exact List.pairwise_iff_getElem.mp hpw i k hilt hklt hik

/-- A declaration is at a site of the tree with a range of its own. -/
theorem built_site (hsep : tree.Separated source) {i : Nat} {s : Site}
    (hi : (built source tree).siteAt? i = some s) :
    s ∈ tree.sites ∧ s.node.label.start < s.node.label.stop := by
  obtain ⟨hs, hh⟩ := (built_finished source tree).site hi
  exact ⟨hs, hsep.nonempty s hs hh⟩

/-- A declaration that ends where another one starts, or earlier, has the smaller index. -/
theorem lt_of_ended (htree : ∀ s ∈ tree.sites, s.node.Orderly) (hsep : tree.Separated source)
    {i k : Nat} {s t : Site} (hi : (built source tree).siteAt? i = some s)
    (hk : (built source tree).siteAt? k = some t) (hend : s.node.label.stop ≤ t.node.label.start) :
    i < k := by
  obtain ⟨hs, hsne⟩ := built_site hsep hi
  obtain ⟨ht, htne⟩ := built_site hsep hk
  rcases Nat.lt_trichotomy i k with hik | rfl | hki
  · exact hik
  · rw [hi] at hk
    obtain rfl := Option.some.inj hk
    omega
  · rcases precedes_of_lt htree hsep hk hi hki with hbelow | hafter
    · obtain ⟨hstart, hstop⟩ := Node.below_inside htree ht hbelow
      omega
    · omega

/-- A declaration has a smaller index than those below it. -/
theorem lt_of_below (htree : ∀ s ∈ tree.sites, s.node.Orderly) (hsep : tree.Separated source)
    {i k : Nat} {s t : Site} (hi : (built source tree).siteAt? i = some s)
    (hk : (built source tree).siteAt? k = some t) (hbelow : t ∈ s.below) : i < k := by
  obtain ⟨hs, hsne⟩ := built_site hsep hi
  obtain ⟨ht, htne⟩ := built_site hsep hk
  obtain ⟨hstart, hstop⟩ := Node.below_inside htree hs hbelow
  rcases Nat.lt_trichotomy i k with hik | rfl | hki
  · exact hik
  · rw [hi] at hk
    obtain rfl := Option.some.inj hk
    exact absurd hbelow s.not_mem_below
  · rcases precedes_of_lt htree hsep hk hi hki with hback | hafter
    · exact absurd (Site.below_trans hback hbelow) t.not_mem_below
    · omega

end Built

end Draft

/-! ## Forests in ascending order -/

namespace Graph

/-- Owners come before what they own, and all that a declaration owns, directly or not, comes before
the next declaration with the same owner. -/
structure Consecutive (g : Graph) : Prop where
  owner_lt : ∀ {i p : Nat}, g.Owner i p → p < i
  gapless : ∀ {c c' j : Nat} {n n' : Declaration}, g.node? c = some n → g.node? c' = some n' →
    n.owner = n'.owner → c < c' → Relation.ReflTransGen g.Owner j c → j < c'

section Forest

variable {g : Graph} {depth : Nat → Nat}

/-- What a declaration owns does not come before it. -/
theorem Consecutive.le_of_above (hc : g.Consecutive) {j a : Nat}
    (h : Relation.ReflTransGen g.Owner j a) : a ≤ j := by
  induction h with
  | refl => exact Nat.le_refl _
  | tail _ hstep ih =>
    have := hc.owner_lt hstep
    omega

/-- All that the first declaration owns comes before all that the second one owns. -/
def Before (g : Graph) (c c' : Nat) : Prop :=
  ∀ j j', Relation.ReflTransGen g.Owner j c → Relation.ReflTransGen g.Owner j' c' → j < j'

theorem Consecutive.before (hc : g.Consecutive) {c c' : Nat} {n n' : Declaration}
    (hn : g.node? c = some n) (hn' : g.node? c' = some n') (howner : n.owner = n'.owner)
    (hlt : c < c') : g.Before c c' := by
  intro j j' hj hj'
  exact Nat.lt_of_lt_of_le (hc.gapless hn hn' howner hlt hj) (hc.le_of_above hj')

theorem Consecutive.children_before (hc : g.Consecutive) (hg : g.Owned depth) {i : Nat}
    {n : Declaration} (hn : g.node? i = some n) : n.children.Pairwise g.Before := by
  refine (hg.ascending hn).imp_of_mem ?_
  intro c c' hmem hmem' hlt
  obtain ⟨m, hm, ho⟩ := (hg.children hn c).mp hmem
  obtain ⟨m', hm', ho'⟩ := (hg.children hn c').mp hmem'
  exact hc.before hm hm' (ho.trans ho'.symm) hlt

theorem Consecutive.roots_before (hc : g.Consecutive) : g.roots.Pairwise g.Before := by
  refine g.roots_ascending.imp_of_mem ?_
  intro r r' hr hr' hlt
  obtain ⟨m, hm, ho⟩ := mem_roots.mp hr
  obtain ⟨m', hm', ho'⟩ := mem_roots.mp hr'
  exact hc.before hm hm' (ho.trans ho'.symm) hlt

mutual

/-- A complete tree lists its declarations in ascending order. -/
theorem Owned.indexes_ascending (hg : g.Owned depth) (hc : g.Consecutive) :
    ∀ t : Tree, t.Complete g → t.indexes.Pairwise (· < ·)
  | .node i ts => by
    intro ht
    rw [Tree.Complete] at ht
    obtain ⟨⟨n, hn, hts⟩, hall⟩ := ht
    rw [Tree.indexes]
    refine List.pairwise_cons.mpr ⟨?_, Owned.indexesAll_ascending hg hc ts hall ?_⟩
    · intro j hj
      rw [hg.mem_indexesAll ts hall, hts] at hj
      obtain ⟨c, hmem, hjc⟩ := hj
      have h1 := hc.owner_lt ((hg.children hn c).mp hmem)
      have h2 := hc.le_of_above hjc
      omega
    · rw [hts]
      exact hc.children_before hg hn

/-- Complete trees side by side list their declarations in ascending order if their tops do so with
all that they own. -/
theorem Owned.indexesAll_ascending (hg : g.Owned depth) (hc : g.Consecutive) :
    ∀ ts : List Tree, Tree.CompleteAll g ts → (ts.map Tree.index).Pairwise g.Before →
      (Tree.indexesAll ts).Pairwise (· < ·)
  | [] => by
    intro _ _
    exact List.Pairwise.nil
  | t :: ts => by
    intro hts hbefore
    rw [Tree.CompleteAll] at hts
    rw [List.map_cons] at hbefore
    obtain ⟨hfirst, hrest⟩ := List.pairwise_cons.mp hbefore
    rw [Tree.indexesAll]
    refine List.pairwise_append.mpr
      ⟨Owned.indexes_ascending hg hc t hts.1, Owned.indexesAll_ascending hg hc ts hts.2 hrest, ?_⟩
    intro j hj k hk
    obtain ⟨c, hmem, hkc⟩ := (hg.mem_indexesAll ts hts.2).mp hk
    exact hfirst c hmem j k ((hg.mem_indexes t hts.1).mp hj) hkc

end

/-- **The forest lists the declarations in the order of their indexes.** -/
theorem Owned.indexes_eq_range (hg : g.Owned depth) (hc : g.Consecutive) {f : Forest}
    (hroots : f.map Tree.index = g.roots) (hall : Tree.CompleteAll g f) :
    f.indexes = List.range g.size := by
  have hperm := hg.indexes_perm_range hroots hall
  refine IndexSet.ascending_ext ?_ List.pairwise_lt_range fun i => hperm.mem_iff
  rw [Forest.indexes_eq]
  refine hg.indexesAll_ascending hc f hall ?_
  rw [hroots]
  exact hc.roots_before

end Forest

end Graph

/-! ## The graph of an orderly tree -/

namespace Draft

variable {source : List Char} {tree : Node}

/-- What a declaration owns, directly or not, is below it in the tree. -/
theorem below_of_owned {i j : Nat} {s t : Site} (hi : (built source tree).siteAt? i = some s)
    (hj : (built source tree).siteAt? j = some t)
    (h : Relation.ReflTransGen (Graph.build source tree).Owner j i) : t = s ∨ t ∈ s.below := by
  induction h using Relation.ReflTransGen.head_induction_on generalizing t with
  | refl =>
    rw [hi] at hj
    exact Or.inl (Option.some.inj hj).symm
  | @head j p howner _ ih =>
    obtain ⟨u, hu, htu⟩ := (((built_finished source tree).owner_iff hj).mp howner).around
    rcases ih hu with rfl | hus
    · exact Or.inr htu
    · exact Or.inr (Site.below_trans hus htu)

/-- A class that owns something has no function, arrow or method around it: else that would own what
is in the class. -/
theorem around_class {c p y : Nat} {n m : Declaration} {s u : Site}
    (hc : (Graph.build source tree).node? c = some n) (hclass : n.kind = .classDef)
    (hs : (built source tree).siteAt? c = some s) (hy : (Graph.build source tree).Owner y c)
    (hp : (Graph.build source tree).node? p = some m)
    (hu : (built source tree).siteAt? p = some u) (hsu : s ∈ u.below) : m.kind = .classDef := by
  have hd := built_finished source tree
  obtain ⟨k, hk, -⟩ := id hy
  obtain ⟨t, -, ht, -⟩ := built_declared hk
  have hcaller := (hd.owner_iff ht).mp hy
  obtain ⟨s', hs', hts⟩ := hcaller.around
  rw [hs] at hs'
  obtain rfl := Option.some.inj hs'
  exact hcaller.only_classes hc hclass p m u hp hu (Site.below_trans hsu hts)

/-- **Of two declarations with the same owner, one is below the other only if it is in a class that
owns nothing.** -/
theorem not_below_sibling {c c' y : Nat} {n n' : Declaration} {s s' : Site}
    (hc : (Graph.build source tree).node? c = some n)
    (hc' : (Graph.build source tree).node? c' = some n') (howner : n.owner = n'.owner)
    (hs : (built source tree).siteAt? c = some s) (hs' : (built source tree).siteAt? c' = some s')
    (hy : (Graph.build source tree).Owner y c) : s' ∉ s.below := by
  intro hbelow
  have hd := built_finished source tree
  obtain ⟨p, hp'⟩ := hd.exists_owner hs' hs hbelow
  have hp : (Graph.build source tree).Owner c p :=
    ⟨n, hc, howner.trans ((Graph.owner_iff hc').mp hp')⟩
  obtain ⟨u, hu, hsu⟩ := ((hd.owner_iff hs).mp hp).around
  -- the owner is less deep than `c`, so that `c` is no better choice for an owner of `c'`
  have hdepth : ¬ s.above.length ≤ u.above.length := by
    rw [Node.sites_depth (hd.site hs).1, Node.sites_depth (hd.site hu).1]
    have := (Address.mem_above.mp (Site.address_mem_above hsu)).2
    omega
  rcases (hd.owner_iff hs').mp hp' with hfun | ⟨hall, hclass⟩
  · obtain ⟨m, u', hm, hkind, hu', -, hdeep⟩ := hfun
    rw [hu] at hu'
    obtain rfl := Option.some.inj hu'
    by_cases hn : n.kind = .classDef
    · exact hkind (around_class hc hn hs hy hm hu hsu)
    · exact hdepth (hdeep c n s hc hn hs hbelow)
  · obtain ⟨m, u', hm, -, hu', -, hdeep⟩ := hclass
    rw [hu] at hu'
    obtain rfl := Option.some.inj hu'
    exact hdepth (hdeep c n s hc (hall c n s hc hs hbelow) hs hbelow)

/-- **The graph of an orderly tree is numbered consecutively.** -/
theorem built_consecutive (htree : ∀ s ∈ tree.sites, s.node.Orderly)
    (hsep : tree.Separated source) : (Graph.build source tree).Consecutive where
  owner_lt := by
    intro i p h
    obtain ⟨n, hn, -⟩ := id h
    obtain ⟨s, -, hs, -⟩ := built_declared hn
    obtain ⟨u, hu, hsu⟩ := (((built_finished source tree).owner_iff hs).mp h).around
    exact lt_of_below htree hsep hu hs hsu
  gapless := by
    intro c c' j n n' hn hn' howner hlt hj
    rcases Relation.ReflTransGen.cases_tail_iff _ _ _ |>.mp hj with rfl | ⟨y, hjy, hyc⟩
    · exact hlt
    obtain ⟨s, hs, hsite, -⟩ := built_declared hn
    obtain ⟨s', -, hsite', -⟩ := built_declared hn'
    obtain ⟨m, hm⟩ : ∃ m, (Graph.build source tree).node? j = some m := by
      rcases Relation.ReflTransGen.cases_head hj with rfl | ⟨q, ⟨m, hm, -⟩, -⟩
      · exact ⟨n, hn⟩
      · exact ⟨m, hm⟩
    obtain ⟨t, -, ht, -⟩ := built_declared hm
    rcases precedes_of_lt htree hsep hsite hsite' hlt with hbelow | hafter
    · exact absurd hbelow (not_below_sibling hn hn' howner hsite hsite' hyc)
    · -- all that `c` owns ends with it, before `c'` starts
      refine lt_of_ended htree hsep ht hsite' (Nat.le_trans ?_ hafter)
      rcases below_of_owned hsite ht hj with rfl | hts
      · exact Nat.le_refl _
      · exact (Node.below_inside htree hs hts).2

end Draft

end CallVicinity
