import CallVicinity.Graph.Freeze
import CallVicinity.Proofs.Draft.Passes
import CallVicinity.Proofs.Graph.Nesting

/-!
# From slots to indexes

Freezing a draft sorts its records and turns every slot into the index of its place in the order.
The sort is a permutation of the slots, so the renumbering is one-to-one, and everything that the
draft says about slots the graph says about indexes:

> `Draft.freeze_owned`: a lawful draft freezes to a graph in which owners lie strictly above what
> they own in the tree.

`Draft.siteAt?` is where in the tree a declaration of the graph comes from.
-/

namespace CallVicinity

namespace Draft

/-! ## The order of the records -/

theorem ordered_perm (d : Draft) : d.ordered.Perm d.records.toList.zipIdx :=
  List.mergeSort_perm _ _

/-- Records that are in order already stay where they are. -/
theorem ordered_of_pairwise {d : Draft}
    (h : d.records.toList.zipIdx.Pairwise fun a b => inOrder a b = true) :
    d.ordered = d.records.toList.zipIdx :=
  List.mergeSort_of_pairwise h

theorem length_ordered (d : Draft) : d.ordered.length = d.records.size := by
  rw [d.ordered_perm.length_eq, List.length_zipIdx, Array.length_toList]

/-- The order holds every record with its slot. -/
theorem mem_ordered {d : Draft} {r : Record} {slot : Nat} :
    (r, slot) ∈ d.ordered ↔ d.records[slot]? = some r := by
  rw [d.ordered_perm.mem_iff, List.mk_mem_zipIdx_iff_getElem?, Array.getElem?_toList]

theorem record_of_ordered {d : Draft} {i slot : Nat} {r : Record}
    (h : d.ordered[i]? = some (r, slot)) : d.records[slot]? = some r :=
  mem_ordered.mp (List.mem_of_getElem? h)

theorem entry_of_ordered {d : Draft} {i slot : Nat} {r : Record}
    (h : d.ordered[i]? = some (r, slot)) : d.entries[slot]? = some (r.site, r.heading) := by
  rw [getElem?_entries, record_of_ordered h]
  rfl

/-- The records of a lawful draft are at sites of the tree, in whatever order. -/
theorem site_of_ordered {d : Draft} {sites : List Site} (hd : d.Lawful sites) {i slot : Nat}
    {r : Record} (h : d.ordered[i]? = some (r, slot)) : r.site ∈ sites :=
  hd.placed _ (List.mem_of_getElem? (entry_of_ordered h))

theorem ordered_slots_nodup (d : Draft) : (d.ordered.map (·.2)).Nodup := by
  rw [(d.ordered_perm.map (·.2)).nodup_iff, List.zipIdx_map_snd]
  exact List.nodup_range'

/-- The place of the record with index `i` is `i`. -/
theorem position_of_ordered {d : Draft} {i slot : Nat} {r : Record}
    (h : d.ordered[i]? = some (r, slot)) : position d.ordered slot = i := by
  obtain ⟨hi, hget⟩ := List.getElem?_eq_some_iff.mp h
  unfold position
  refine (List.findIdx_eq hi).mpr ⟨by rw [hget]; exact beq_self_eq_true _, ?_⟩
  intro j hj
  refine beq_eq_false_iff_ne.mpr ?_
  intro heq
  -- two places with the same slot are the same place
  have hij : (d.ordered.map (·.2))[j]? = (d.ordered.map (·.2))[i]? := by
    rw [List.getElem?_map, List.getElem?_map, h, List.getElem?_eq_getElem (Nat.lt_trans hj hi)]
    exact congrArg some heq
  have hlen : j < (d.ordered.map (·.2)).length := by
    rw [List.length_map]
    exact Nat.lt_trans hj hi
  exact absurd ((List.getElem?_inj hlen d.ordered_slots_nodup).mp hij) (Nat.ne_of_lt hj)

/-- The place of a slot in use holds its record. -/
theorem ordered_position {d : Draft} {slot : Nat} {r : Record} (h : d.records[slot]? = some r) :
    d.ordered[position d.ordered slot]? = some (r, slot) := by
  obtain ⟨i, hi⟩ := List.mem_iff_getElem?.mp (mem_ordered.mpr h)
  rw [position_of_ordered hi]
  exact hi

/-- Slots in use have different places. -/
theorem position_inj {d : Draft} {s t : Nat} (hs : s < d.records.size) (ht : t < d.records.size)
    (h : position d.ordered s = position d.ordered t) : s = t := by
  have h1 := ordered_position (Array.getElem?_eq_getElem hs)
  have h2 := ordered_position (Array.getElem?_eq_getElem ht)
  rw [h, h2] at h1
  exact (Prod.mk.inj (Option.some.inj h1)).2.symm

/-! ## The frozen declarations -/

theorem freeze_node? {d : Draft} {source : List Char} {i : Nat} :
    (d.freeze source).node? i
      = d.ordered[i]?.map fun r => declaration source d.ordered i r.1 := by
  unfold freeze Graph.node?
  rw [List.getElem?_toArray, List.getElem?_map, List.getElem?_zipIdx, Option.map_map, Nat.zero_add]
  rfl

theorem freeze_node?_eq_some {d : Draft} {source : List Char} {i : Nat} {n : Declaration} :
    (d.freeze source).node? i = some n ↔
      ∃ r slot, d.ordered[i]? = some (r, slot) ∧ declaration source d.ordered i r = n := by
  rw [freeze_node?, Option.map_eq_some_iff]
  constructor
  · intro h
    obtain ⟨⟨r, slot⟩, hi, hn⟩ := h
    exact ⟨r, slot, hi, hn⟩
  · intro h
    obtain ⟨r, slot, hi, hn⟩ := h
    exact ⟨(r, slot), hi, hn⟩

theorem freeze_size (d : Draft) (source : List Char) :
    (d.freeze source).size = d.records.size := by
  unfold freeze Graph.size
  rw [List.size_toArray, List.length_map, List.length_zipIdx, length_ordered]

/-- The site of the tree that declaration `i` of the frozen graph was recorded at. -/
def siteAt? (d : Draft) (i : Nat) : Option Site :=
  d.ordered[i]?.map (·.1.site)

/-- How deep in the tree declaration `i` of the frozen graph is. -/
def depthAt (d : Draft) (i : Nat) : Nat :=
  ((d.siteAt? i).map (·.address.length)).getD 0

theorem depthAt_eq {d : Draft} {i : Nat} {s : Site} (h : d.siteAt? i = some s) :
    d.depthAt i = s.address.length := by
  unfold depthAt
  rw [h]
  rfl

theorem siteAt?_of_ordered {d : Draft} {i slot : Nat} {r : Record}
    (h : d.ordered[i]? = some (r, slot)) : d.siteAt? i = some r.site := by
  unfold siteAt?
  rw [h]
  rfl

/-! ## Owners -/

/-- The owner of a declaration of the frozen graph comes from the owner of its record. -/
theorem freeze_owner {d : Draft} {sites : List Site} {source : List Char} (hd : d.Lawful sites)
    {i p : Nat} (h : (d.freeze source).Owner i p) :
    ∃ r slot q o, d.ordered[i]? = some (r, slot) ∧ r.owner = some o ∧
      d.ordered[p]? = some (q, o) ∧ q.site.address ∈ r.site.address.above := by
  obtain ⟨n, hn, hp⟩ := h
  obtain ⟨r, slot, hi, rfl⟩ := freeze_node?_eq_some.mp hn
  obtain ⟨o, ho, hpos⟩ := Option.map_eq_some_iff.mp hp
  obtain ⟨q, hq, habove⟩ := hd.owned (record_of_ordered hi) ho
  have hplace := ordered_position hq
  rw [hpos] at hplace
  exact ⟨r, slot, q, o, hi, ho, hplace, habove⟩

/-- **A lawful draft freezes to an owned graph**: depth in the tree is the measure that gets smaller
from a declaration to its owner. -/
theorem freeze_owned {d : Draft} {sites : List Site} (hd : d.Lawful sites) (source : List Char) :
    (d.freeze source).Owned d.depthAt where
  upward := by
    intro i p h
    obtain ⟨r, slot, q, o, hi, -, hp, habove⟩ := freeze_owner hd h
    refine ⟨Graph.node?_lt (freeze_node?_eq_some.mpr ⟨q, o, hp, rfl⟩), ?_⟩
    rw [depthAt_eq (siteAt?_of_ordered hi), depthAt_eq (siteAt?_of_ordered hp)]
    exact (Address.mem_above.mp habove).2
  children := by
    intro i n hn c
    obtain ⟨r, slot, hi, rfl⟩ := freeze_node?_eq_some.mp hn
    show c ∈ childrenOf (ownerIndexes d.ordered) i ↔ _
    unfold childrenOf
    rw [mem_map_snd_filter_zipIdx, ownerIndexes, List.getElem?_map]
    constructor
    · intro h
      obtain ⟨x, hx, hxi⟩ := h
      obtain ⟨⟨q, t⟩, hc, rfl⟩ := Option.map_eq_some_iff.mp hx
      exact ⟨_, freeze_node?_eq_some.mpr ⟨q, t, hc, rfl⟩, eq_of_beq hxi⟩
    · intro h
      obtain ⟨m, hm, hmi⟩ := h
      obtain ⟨q, t, hc, rfl⟩ := freeze_node?_eq_some.mp hm
      exact ⟨_, by rw [hc]; rfl, beq_iff_eq.mpr hmi⟩
  ascending := by
    intro i n hn
    obtain ⟨r, slot, hi, rfl⟩ := freeze_node?_eq_some.mp hn
    exact map_snd_filter_zipIdx_ascending _ _

end Draft

end CallVicinity
