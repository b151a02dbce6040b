import Mathlib.Data.List.Nodup
import CallVicinity.Tree.Basic

/-!
# Where the nodes of a tree lie

`Node.sites` lists the nodes of a tree with their addresses. This file proves that the address is
the identity it is meant to be, and that ancestry can be read off it:

> `Node.sites_address_inj`: two sites of a tree with the same address are the same site.

> `Node.mem_below_iff`: a site lies strictly below another one exactly where the other's address is
> a proper suffix of its own.

`Site.below` is ancestry itself: the listing of the subtree of a site without its top. Everything
later that walks up addresses (the declaration around a call, the owner of a declaration) is stated
in terms of it. `Site.IsChild` is one step of it, and what `Site.above` lists are the nodes met on
the way up (`Node.exists_parent`, `Site.IsChild.above`).
-/

namespace CallVicinity

/-! ## Addresses -/

/-- The addresses above an address are its proper suffixes. -/
theorem Address.mem_above {b : Address} :
    ∀ {a : Address}, b ∈ a.above ↔ b <:+ a ∧ b.length < a.length
  | [] => by simp [Address.above]
  | k :: a => by
    rw [Address.above, List.mem_cons, Address.mem_above, List.suffix_cons_iff]
    constructor
    · intro h
      rcases h with rfl | ⟨hs, hlt⟩
      · exact ⟨Or.inr (List.suffix_refl _), Nat.lt_succ_self _⟩
      · exact ⟨Or.inr hs, Nat.lt_succ_of_lt hlt⟩
    · intro h
      obtain ⟨rfl | hs, hlt⟩ := h
      · exact absurd hlt (Nat.lt_irrefl _)
      · -- a suffix of `k :: a` that is not all of it is one of `a`, be it all of `a`
        rcases Nat.lt_or_ge b.length a.length with hb | hb
        · exact Or.inr ⟨hs, hb⟩
        · exact Or.inl (hs.eq_of_length_le hb)

/-- The addresses above an address are listed from the deepest to the root. -/
theorem Address.above_deepest_first :
    ∀ a : Address, a.above.Pairwise fun b c => c.length < b.length
  | [] => List.Pairwise.nil
  | _ :: a => by
    rw [Address.above]
    refine List.pairwise_cons.mpr ⟨?_, Address.above_deepest_first a⟩
    intro c hc
    exact (Address.mem_above.mp hc).2

/-- Two siblings above one address are the same sibling. -/
theorem Address.sibling_unique {a b : Address} {j k : Nat} (hj : (j :: a) <:+ b)
    (hk : (k :: a) <:+ b) : j = k := by
  have h : (j :: a) <:+ (k :: a) := List.suffix_of_suffix_length_le hj hk (Nat.le_refl _)
  exact (List.cons.inj (h.eq_of_length rfl)).1

/-! ## Where the sites of a subtree lie -/

mutual

/-- Every site of a subtree has the address of its top as a suffix. -/
theorem Node.sitesAt_suffix {a : Address} {above : List Node} {s : Site} :
    ∀ n : Node, s ∈ n.sitesAt a above → a <:+ s.address
  | .mk l cs => by
    intro hs
    rw [Node.sitesAt] at hs
    rcases List.mem_cons.mp hs with rfl | hs
    · exact List.suffix_refl _
    · obtain ⟨j, -, hj⟩ := Node.sitesOfChildren_suffix cs _ hs
      exact (List.suffix_cons j a).trans hj

/-- Every site among numbered siblings lies at or below one of them. -/
theorem Node.sitesOfChildren_suffix {a : Address} {above : List Node} {s : Site} :
    ∀ (cs : List Node) (k : Nat), s ∈ Node.sitesOfChildren a above k cs →
      ∃ j, k ≤ j ∧ (j :: a) <:+ s.address
  | [] => by
    intro k hs
    rw [Node.sitesOfChildren] at hs
    exact absurd hs List.not_mem_nil
  | c :: cs => by
    intro k hs
    rw [Node.sitesOfChildren] at hs
    rcases List.mem_append.mp hs with hs | hs
    · exact ⟨k, Nat.le_refl _, Node.sitesAt_suffix c hs⟩
    · obtain ⟨j, hkj, hj⟩ := Node.sitesOfChildren_suffix cs _ hs
      exact ⟨j, Nat.le_of_succ_le hkj, hj⟩

end

/-- The sites among siblings are strictly deeper than their parent. -/
theorem Node.sitesOfChildren_above {a : Address} {above : List Node} {s : Site} {cs : List Node}
    {k : Nat} (hs : s ∈ Node.sitesOfChildren a above k cs) : a ∈ s.address.above := by
  obtain ⟨j, -, hj⟩ := Node.sitesOfChildren_suffix cs k hs
  refine Address.mem_above.mpr ⟨(List.suffix_cons j a).trans hj, ?_⟩
  have := hj.length_le
  rw [List.length_cons] at this
  omega

mutual

/-- No two sites of a subtree have the same address. -/
theorem Node.sitesAt_addresses_nodup {a : Address} {above : List Node} :
    ∀ n : Node, ((n.sitesAt a above).map (·.address)).Nodup
  | .mk l cs => by
    rw [Node.sitesAt, List.map_cons]
    refine List.nodup_cons.mpr ⟨?_, Node.sitesOfChildren_addresses_nodup cs _⟩
    intro hmem
    obtain ⟨s, hs, hsa⟩ := List.mem_map.mp hmem
    have hlt := (Address.mem_above.mp (Node.sitesOfChildren_above hs)).2
    rw [hsa] at hlt
    exact absurd hlt (Nat.lt_irrefl _)

/-- No two sites among siblings have the same address. -/
theorem Node.sitesOfChildren_addresses_nodup {a : Address} {above : List Node} :
    ∀ (cs : List Node) (k : Nat), ((Node.sitesOfChildren a above k cs).map (·.address)).Nodup
  | [] => by
    intro k
    rw [Node.sitesOfChildren]
    exact List.nodup_nil
  | c :: cs => by
    intro k
    rw [Node.sitesOfChildren, List.map_append]
    refine List.nodup_append.mpr
      ⟨Node.sitesAt_addresses_nodup c, Node.sitesOfChildren_addresses_nodup cs _, ?_⟩
    -- the first sibling's addresses end in `k :: a`, the later ones' in `j :: a` with `k < j`
    intro b hb b' hb' hbb'
    obtain ⟨s, hs, hsb⟩ := List.mem_map.mp hb
    obtain ⟨t, ht, htb⟩ := List.mem_map.mp hb'
    obtain ⟨j, hkj, hj⟩ := Node.sitesOfChildren_suffix cs _ ht
    rw [htb, ← hbb', ← hsb] at hj
    have := Address.sibling_unique hj (Node.sitesAt_suffix c hs)
    omega

end

/-! ## Sites below a site -/

/-- The sites strictly below a site, in pre-order. -/
def Site.below (s : Site) : List Site :=
  Node.sitesOfChildren s.address (s.node :: s.above) 0 s.node.children

/-- What is below a site has the site's address above its own. -/
theorem Site.address_mem_above {s t : Site} (h : t ∈ s.below) : s.address ∈ t.address.above :=
  Node.sitesOfChildren_above h

mutual

/-- In a subtree, a site whose address is above that of another one has it below. -/
theorem Node.mem_below_of_sitesAt {a : Address} {above : List Node} {s t : Site}
    (hst : s.address ∈ t.address.above) :
    ∀ n : Node, s ∈ n.sitesAt a above → t ∈ n.sitesAt a above → t ∈ s.below
  | .mk l cs => by
    intro hs ht
    rw [Node.sitesAt] at hs ht
    have hlt := (Address.mem_above.mp hst).2
    rcases List.mem_cons.mp hs with rfl | hs <;> rcases List.mem_cons.mp ht with rfl | ht
    · exact absurd hlt (Nat.lt_irrefl _)
    · exact ht
    · -- the top is above `s`, so it cannot be below it
      have := (Address.mem_above.mp (Node.sitesOfChildren_above hs)).2
      exact absurd hlt (Nat.lt_asymm this)
    · exact Node.mem_below_of_sitesOfChildren hst cs _ hs ht

/-- The same among siblings: both sites lie in the subtree of one of them. -/
theorem Node.mem_below_of_sitesOfChildren {a : Address} {above : List Node} {s t : Site}
    (hst : s.address ∈ t.address.above) : ∀ (cs : List Node) (k : Nat),
      s ∈ Node.sitesOfChildren a above k cs → t ∈ Node.sitesOfChildren a above k cs → t ∈ s.below
  | [] => by
    intro k hs
    rw [Node.sitesOfChildren] at hs
    exact absurd hs List.not_mem_nil
  | c :: cs => by
    intro k hs ht
    rw [Node.sitesOfChildren] at hs ht
    have hsuf := (Address.mem_above.mp hst).1
    -- in different siblings the two addresses would part before either of them ends
    rcases List.mem_append.mp hs with hs | hs <;> rcases List.mem_append.mp ht with ht | ht
    · exact Node.mem_below_of_sitesAt hst c hs ht
    · obtain ⟨j, hkj, hj⟩ := Node.sitesOfChildren_suffix cs _ ht
      have := Address.sibling_unique hj ((Node.sitesAt_suffix c hs).trans hsuf)
      omega
    · obtain ⟨j, hkj, hj⟩ := Node.sitesOfChildren_suffix cs _ hs
      have := Address.sibling_unique (hj.trans hsuf) (Node.sitesAt_suffix c ht)
      omega
    · exact Node.mem_below_of_sitesOfChildren hst cs _ hs ht

end

mutual

/-- A site of a subtree has as many nodes above it as its address has numbers, counted from the
top. -/
theorem Node.sitesAt_depth {a : Address} {above : List Node} {s : Site} :
    ∀ n : Node, s ∈ n.sitesAt a above →
      s.above.length + a.length = s.address.length + above.length
  | .mk l cs => by
    intro hs
    rw [Node.sitesAt] at hs
    rcases List.mem_cons.mp hs with rfl | hs
    · exact Nat.add_comm _ _
    · have := Node.sitesOfChildren_depth cs _ hs
      rw [List.length_cons] at this
      omega

/-- The same among siblings, which are one level below their parent. -/
theorem Node.sitesOfChildren_depth {a : Address} {above : List Node} {s : Site} :
    ∀ (cs : List Node) (k : Nat), s ∈ Node.sitesOfChildren a above k cs →
      s.above.length + a.length + 1 = s.address.length + above.length
  | [] => by
    intro k hs
    rw [Node.sitesOfChildren] at hs
    exact absurd hs List.not_mem_nil
  | c :: cs => by
    intro k hs
    rw [Node.sitesOfChildren] at hs
    rcases List.mem_append.mp hs with hs | hs
    · have := Node.sitesAt_depth c hs
      rw [List.length_cons] at this
      omega
    · exact Node.sitesOfChildren_depth cs _ hs

end

mutual

/-- What is above a subtree is above all of its sites. -/
theorem Node.sitesAt_above_suffix {a : Address} {above : List Node} {s : Site} :
    ∀ n : Node, s ∈ n.sitesAt a above → above <:+ s.above
  | .mk l cs => by
    intro hs
    rw [Node.sitesAt] at hs
    rcases List.mem_cons.mp hs with rfl | hs
    · exact List.suffix_refl _
    · exact (List.suffix_cons _ _).trans (Node.sitesOfChildren_above_suffix cs _ hs)

theorem Node.sitesOfChildren_above_suffix {a : Address} {above : List Node} {s : Site} :
    ∀ (cs : List Node) (k : Nat), s ∈ Node.sitesOfChildren a above k cs → above <:+ s.above
  | [] => by
    intro k hs
    rw [Node.sitesOfChildren] at hs
    exact absurd hs List.not_mem_nil
  | c :: cs => by
    intro k hs
    rw [Node.sitesOfChildren] at hs
    rcases List.mem_append.mp hs with hs | hs
    · exact Node.sitesAt_above_suffix c hs
    · exact Node.sitesOfChildren_above_suffix cs _ hs

end

/-! ## Parents -/

/-- Site `s` is the child with number `k` of site `p`. -/
structure Site.IsChild (p : Site) (k : Nat) (s : Site) : Prop where
  address : s.address = k :: p.address
  node : p.node.children[k]? = some s.node

mutual

/-- Every site of a subtree but its top has its parent in the subtree, with one node more above. -/
theorem Node.sitesAt_parent {a : Address} {above : List Node} {s : Site} :
    ∀ n : Node, s ∈ n.sitesAt a above → s = ⟨n, a, above⟩ ∨
      ∃ p ∈ n.sitesAt a above, ∃ k, p.IsChild k s ∧ s.above = p.node :: p.above
  | .mk l cs => by
    intro hs
    rw [Node.sitesAt] at hs ⊢
    rcases List.mem_cons.mp hs with rfl | hs
    · exact Or.inl rfl
    · refine Or.inr ?_
      rcases Node.sitesOfChildren_parent cs 0 hs with ⟨j, hj, haddress, habove⟩ | ⟨p, hp, k, hk⟩
      · rw [Nat.zero_add] at haddress
        exact ⟨_, List.mem_cons_self, j, ⟨haddress, hj⟩, habove⟩
      · exact ⟨p, List.mem_cons_of_mem _ hp, k, hk⟩

/-- Every site among numbered siblings is one of them or has its parent among the sites. -/
theorem Node.sitesOfChildren_parent {a : Address} {above : List Node} {s : Site} :
    ∀ (cs : List Node) (k : Nat), s ∈ Node.sitesOfChildren a above k cs →
      (∃ j, cs[j]? = some s.node ∧ s.address = (k + j) :: a ∧ s.above = above) ∨
        ∃ p ∈ Node.sitesOfChildren a above k cs, ∃ j, p.IsChild j s ∧ s.above = p.node :: p.above
  | [] => by
    intro k hs
    rw [Node.sitesOfChildren] at hs
    exact absurd hs List.not_mem_nil
  | c :: cs => by
    intro k hs
    rw [Node.sitesOfChildren] at hs ⊢
    rcases List.mem_append.mp hs with hs | hs
    · rcases Node.sitesAt_parent c hs with rfl | ⟨p, hp, j, hj⟩
      · exact Or.inl ⟨0, rfl, rfl, rfl⟩
      · exact Or.inr ⟨p, List.mem_append_left _ hp, j, hj⟩
    · rcases Node.sitesOfChildren_parent cs _ hs with ⟨j, hj, haddress, habove⟩ | ⟨p, hp, j, hj⟩
      · rw [Nat.add_right_comm] at haddress
        exact Or.inl ⟨j + 1, hj, haddress, habove⟩
      · exact Or.inr ⟨p, List.mem_append_right _ hp, j, hj⟩

end

/-! ## The sites of a tree -/

section Tree

variable {tree : Node} {s t : Site}

/-- A site of a tree is known by its address. -/
theorem Node.sites_address_inj (hs : s ∈ tree.sites) (ht : t ∈ tree.sites)
    (h : s.address = t.address) : s = t :=
  List.inj_on_of_nodup_map (Node.sitesAt_addresses_nodup tree) hs ht h

/-- One site of a tree is below another exactly where the other's address is above its own. -/
theorem Node.mem_below_iff (hs : s ∈ tree.sites) (ht : t ∈ tree.sites) :
    t ∈ s.below ↔ s.address ∈ t.address.above :=
  ⟨Site.address_mem_above, fun h => Node.mem_below_of_sitesAt h tree hs ht⟩

/-- The nearest node above a site of a tree is at a site of the tree, its parent. -/
theorem Node.exists_parent (hs : s ∈ tree.sites) {n : Node} {above : List Node}
    (habove : s.above = n :: above) :
    ∃ p ∈ tree.sites, ∃ k, p.IsChild k s ∧ p.node = n ∧ p.above = above := by
  rcases Node.sitesAt_parent tree hs with rfl | ⟨p, hp, k, hk, hpabove⟩
  · cases habove
  · obtain ⟨hn, habove⟩ := List.cons.inj (hpabove.symm.trans habove)
    exact ⟨p, hp, k, hk, hn, habove⟩

/-- Above a child are its parent and what is above that. -/
theorem Site.IsChild.above {k : Nat} (h : t.IsChild k s) (hs : s ∈ tree.sites)
    (ht : t ∈ tree.sites) : s.above = t.node :: t.above := by
  rcases Node.sitesAt_parent tree hs with rfl | ⟨p, hp, j, hj, habove⟩
  · cases h.address
  · have haddress : t.address = p.address :=
      (List.cons.inj (h.address.symm.trans hj.address)).2
    rw [Node.sites_address_inj ht hp haddress]
    exact habove

/-- The depth of a site is the length of its address. -/
theorem Node.sites_depth (hs : s ∈ tree.sites) : s.above.length = s.address.length := by
  have := Node.sitesAt_depth tree hs
  simpa using this

end Tree

end CallVicinity
