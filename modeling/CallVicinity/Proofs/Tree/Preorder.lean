import CallVicinity.Proofs.Tree.Sites

/-!
# Pre-order and the order of the text

In the tree of a parser the children of a node lie inside its range, one after the other
(`Node.Orderly`). The listing of such a tree is in the order of the text:

> `Node.below_inside`: what is below a site lies inside its range.

> `Node.sites_precede`: of two sites of the listing, the later one is below the earlier one or
> starts where the earlier one has ended.
-/

namespace CallVicinity

/-- One range lies inside another. -/
def Label.Inside (l m : Label) : Prop :=
  m.start ≤ l.start ∧ l.stop ≤ m.stop

instance (l m : Label) : Decidable (l.Inside m) :=
  inferInstanceAs (Decidable (_ ∧ _))

theorem Label.Inside.refl (l : Label) : l.Inside l :=
  ⟨Nat.le_refl _, Nat.le_refl _⟩

theorem Label.Inside.trans {l m k : Label} (h : l.Inside m) (h' : m.Inside k) : l.Inside k :=
  ⟨Nat.le_trans h'.1 h.1, Nat.le_trans h.2 h'.2⟩

/-- The children of a node lie inside its range. -/
def Node.Encloses (n : Node) : Prop :=
  ∀ c ∈ n.children, c.label.Inside n.label

instance (n : Node) : Decidable n.Encloses :=
  inferInstanceAs (Decidable (∀ c ∈ n.children, c.label.Inside n.label))

/-- The children of a node lie inside its range, in order and without overlap. -/
def Node.Orderly (n : Node) : Prop :=
  (∀ c ∈ n.children, c.label.Inside n.label) ∧
    n.children.Pairwise fun c c' => c.label.stop ≤ c'.label.start

instance (n : Node) : Decidable n.Orderly :=
  inferInstanceAs (Decidable (_ ∧ _))

/-- The order of two sites in a listing: the second one is below the first or starts where the first
has ended. -/
def Site.Precedes (s t : Site) : Prop :=
  t ∈ s.below ∨ s.node.label.stop ≤ t.node.label.start

/-! ## Ranges in a subtree -/

mutual

/-- The sites of a subtree with nested ranges lie inside the range of its top. -/
theorem Node.sitesAt_inside {a : Address} {above : List Node} {s : Site} :
    ∀ n : Node, (∀ t ∈ n.sitesAt a above, t.node.Encloses) → s ∈ n.sitesAt a above →
      s.node.label.Inside n.label
  | .mk l cs => by
    intro hn hs
    rw [Node.sitesAt] at hn hs
    obtain ⟨htop, hcs⟩ := List.forall_mem_cons.mp hn
    rcases List.mem_cons.mp hs with rfl | hs
    · exact Label.Inside.refl _
    · obtain ⟨c, hc, hsc⟩ := Node.sitesOfChildren_inside cs _ hcs hs
      exact hsc.trans (htop c hc)

/-- The sites among siblings lie inside the range of one of them. -/
theorem Node.sitesOfChildren_inside {a : Address} {above : List Node} {s : Site} :
    ∀ (cs : List Node) (k : Nat),
      (∀ t ∈ Node.sitesOfChildren a above k cs, t.node.Encloses) →
      s ∈ Node.sitesOfChildren a above k cs → ∃ c ∈ cs, s.node.label.Inside c.label
  | [] => by
    intro k _ hs
    rw [Node.sitesOfChildren] at hs
    exact absurd hs List.not_mem_nil
  | c :: cs => by
    intro k hn hs
    rw [Node.sitesOfChildren] at hn hs
    obtain ⟨hc, hcs⟩ := List.forall_mem_append.mp hn
    rcases List.mem_append.mp hs with hs | hs
    · exact ⟨c, List.mem_cons_self, Node.sitesAt_inside c hc hs⟩
    · obtain ⟨c', hc', hsc'⟩ := Node.sitesOfChildren_inside cs _ hcs hs
      exact ⟨c', List.mem_cons_of_mem _ hc', hsc'⟩

end

mutual

/-- What is below a site of a subtree is in the subtree. -/
theorem Node.below_subset_sitesAt {a : Address} {above : List Node} {s t : Site}
    (ht : t ∈ s.below) : ∀ n : Node, s ∈ n.sitesAt a above → t ∈ n.sitesAt a above
  | .mk l cs => by
    intro hs
    rw [Node.sitesAt] at hs ⊢
    rcases List.mem_cons.mp hs with rfl | hs
    · exact List.mem_cons_of_mem _ ht
    · exact List.mem_cons_of_mem _ (Node.below_subset_sitesOfChildren ht cs _ hs)

/-- What is below a site among siblings is among them. -/
theorem Node.below_subset_sitesOfChildren {a : Address} {above : List Node} {s t : Site}
    (ht : t ∈ s.below) : ∀ (cs : List Node) (k : Nat),
      s ∈ Node.sitesOfChildren a above k cs → t ∈ Node.sitesOfChildren a above k cs
  | [] => by
    intro k hs
    rw [Node.sitesOfChildren] at hs
    exact absurd hs List.not_mem_nil
  | c :: cs => by
    intro k hs
    rw [Node.sitesOfChildren] at hs ⊢
    rcases List.mem_append.mp hs with hs | hs
    · exact List.mem_append_left _ (Node.below_subset_sitesAt ht c hs)
    · exact List.mem_append_right _ (Node.below_subset_sitesOfChildren ht cs _ hs)

end

mutual

/-- The listing of an orderly subtree is in the order of the text. -/
theorem Node.sitesAt_precede {a : Address} {above : List Node} :
    ∀ n : Node, (∀ t ∈ n.sitesAt a above, t.node.Orderly) →
      (n.sitesAt a above).Pairwise Site.Precedes
  | .mk l cs => by
    intro hn
    rw [Node.sitesAt] at hn ⊢
    obtain ⟨htop, hcs⟩ := List.forall_mem_cons.mp hn
    refine List.pairwise_cons.mpr ⟨?_, Node.sitesOfChildren_precede cs _ htop.2 hcs⟩
    intro t ht
    exact Or.inl ht

/-- The listing of orderly siblings without overlap is in the order of the text. -/
theorem Node.sitesOfChildren_precede {a : Address} {above : List Node} :
    ∀ (cs : List Node) (k : Nat), cs.Pairwise (fun c c' => c.label.stop ≤ c'.label.start) →
      (∀ t ∈ Node.sitesOfChildren a above k cs, t.node.Orderly) →
      (Node.sitesOfChildren a above k cs).Pairwise Site.Precedes
  | [] => by
    intro k _ _
    rw [Node.sitesOfChildren]
    exact List.Pairwise.nil
  | c :: cs => by
    intro k hpw hn
    rw [Node.sitesOfChildren] at hn ⊢
    obtain ⟨hc, hcs⟩ := List.forall_mem_append.mp hn
    obtain ⟨hfirst, hrest⟩ := List.pairwise_cons.mp hpw
    refine List.pairwise_append.mpr
      ⟨Node.sitesAt_precede c hc, Node.sitesOfChildren_precede cs _ hrest hcs, ?_⟩
    -- a site in the first sibling ends before the later sibling that the other one is in
    intro s hs t ht
    obtain ⟨-, hstop⟩ := Node.sitesAt_inside c (fun t ht => (hc t ht).1) hs
    obtain ⟨c', hc', hstart, -⟩ :=
      Node.sitesOfChildren_inside cs _ (fun t ht => (hcs t ht).1) ht
    have hcc' := hfirst c' hc'
    exact Or.inr (by omega)

end

/-! ## Ranges in a tree -/

section Tree

variable {tree : Node} {s t : Site}

/-- What is below a site lies inside its range. -/
theorem Node.below_inside (htree : ∀ u ∈ tree.sites, u.node.Orderly) (hs : s ∈ tree.sites)
    (ht : t ∈ s.below) : t.node.label.Inside s.node.label := by
  have hbelow : ∀ u ∈ s.below, u.node.Encloses :=
    fun u hu => (htree u (Node.below_subset_sitesAt hu tree hs)).1
  obtain ⟨c, hc, htc⟩ := Node.sitesOfChildren_inside s.node.children 0 hbelow ht
  exact htc.trans ((htree s hs).1 c hc)

/-- **Pre-order is the order of the text.** -/
theorem Node.sites_precede (htree : ∀ u ∈ tree.sites, u.node.Orderly) :
    tree.sites.Pairwise Site.Precedes :=
  Node.sitesAt_precede tree htree

/-- No site is below itself. -/
theorem Site.not_mem_below (s : Site) : s ∉ s.below := by
  intro h
  exact absurd (Address.mem_above.mp (Site.address_mem_above h)).2 (Nat.lt_irrefl _)

/-- What is below what is below a site is below the site. -/
theorem Site.below_trans {u : Site} (hts : t ∈ s.below) (hut : u ∈ t.below) : u ∈ s.below :=
  Node.below_subset_sitesOfChildren hut _ _ hts

end Tree

end CallVicinity
