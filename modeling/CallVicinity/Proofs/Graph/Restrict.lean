import Mathlib.Tactic.ByContra
import CallVicinity.Graph.Forest
import CallVicinity.Tree.Basic

/-!
# Restricted forests

`Forest.restrict` drops a tree whose top is not in the set with all that is below it, so that
members of the set go too where something above them is not in it. An index can stand in a forest
more than once. What happens to each of its occurrences is said with places: an index with its
address and with the indexes above it, as `Node.sites` lists the nodes of a parse tree.

> `Forest.places_restrict`: the places of a restricted forest are, in pre-order, the places whose
> index is in the set together with all indexes above it. Each is renumbered among its siblings and
> keeps its parent.

Restricting to one set and then to another is restricting to what is in both
(`Forest.restrict_restrict`), from which the other laws of restriction follow.
-/

namespace CallVicinity

/-! ## Restricting twice -/

/-- The members of both sets. -/
def IndexSet.inter (s t : IndexSet) : IndexSet :=
  s.filter fun i => decide (i ∈ t)

@[simp] theorem IndexSet.mem_inter {s t : IndexSet} {i : Nat} : i ∈ s.inter t ↔ i ∈ s ∧ i ∈ t := by
  simp [IndexSet.inter]

theorem IndexSet.inter_comm (s t : IndexSet) : s.inter t = t.inter s :=
  IndexSet.ext_mem fun i => by rw [mem_inter, mem_inter, and_comm]

theorem IndexSet.inter_self (s : IndexSet) : s.inter s = s :=
  IndexSet.ext_mem fun i => by rw [mem_inter, and_self]

@[simp] theorem Tree.index_restrict (keep : IndexSet) (t : Tree) :
    (t.restrict keep).index = t.index := by
  cases t
  rw [Tree.restrict, Tree.index, Tree.index]

mutual

theorem Tree.restrict_restrict (s s' : IndexSet) : ∀ t : Tree,
    (t.restrict s).restrict s' = t.restrict (s.inter s')
  | .node i ts => by
    rw [Tree.restrict, Tree.restrict, Tree.restrict, Forest.restrict_restrict s s' ts]

/-- **Restricting twice is restricting to what is in both sets.** -/
theorem Forest.restrict_restrict (s s' : IndexSet) : ∀ ts : List Tree,
    Forest.restrict s' (Forest.restrict s ts) = Forest.restrict (s.inter s') ts
  | [] => by rw [Forest.restrict, Forest.restrict, Forest.restrict]
  | t :: ts => by
    rw [Forest.restrict, Forest.restrict, ← Forest.restrict_restrict s s' ts,
      ← Tree.restrict_restrict s s' t]
    by_cases h : t.index ∈ s
    · rw [if_pos h, Forest.restrict, Tree.index_restrict]
      simp only [IndexSet.mem_inter, h, true_and]
    · rw [if_neg h, if_neg fun hboth => h (IndexSet.mem_inter.mp hboth).1]

end

/-! ## Places -/

namespace Forest

/-- An index in its place in a forest. -/
structure Place where
  index : Nat
  address : Address
  /-- The indexes above, nearest first. -/
  above : List Nat
deriving DecidableEq

namespace Place

/-- The first place is directly above the second. -/
def ParentOf (p q : Place) : Prop :=
  ∃ k, q.address = k :: p.address

/-- The two places have the same place above them, and the first comes before the second. -/
def EarlierSibling (p q : Place) : Prop :=
  ∃ a j k, p.address = j :: a ∧ q.address = k :: a ∧ j < k

/-- The index is in the set, and so are all indexes above it. -/
def Survives (keep : IndexSet) (p : Place) : Prop :=
  p.index ∈ keep ∧ ∀ i ∈ p.above, i ∈ keep

instance (keep : IndexSet) (p : Place) : Decidable (p.Survives keep) :=
  inferInstanceAs (Decidable (_ ∧ _))

end Place

end Forest

mutual

/-- The places of a tree whose top has the given address and indexes above, in pre-order. -/
def Tree.placesAt (address : Address) (above : List Nat) : Tree → List Forest.Place
  | .node i ts => ⟨i, address, above⟩ :: Tree.placesOfChildren address (i :: above) 0 ts

/-- The places of trees that are numbered from `k` on below the given address. -/
def Tree.placesOfChildren (address : Address) (above : List Nat) (k : Nat) :
    List Tree → List Forest.Place
  | [] => []
  | t :: ts =>
    Tree.placesAt (k :: address) above t ++ Tree.placesOfChildren address above (k + 1) ts

end

mutual

theorem Tree.flattenAt_eq (a : Address) (above : List Nat) : ∀ t : Tree,
    t.flattenAt above.length = (t.placesAt a above).map fun p => (p.above.length, p.index)
  | .node i ts => by
    rw [Tree.flattenAt, Tree.placesAt, List.map_cons]
    exact congrArg _ (Tree.flattenForestAt_eq a (i :: above) ts 0)

theorem Tree.flattenForestAt_eq (a : Address) (above : List Nat) : ∀ (ts : List Tree) (k : Nat),
    Tree.flattenForestAt above.length ts
      = (Tree.placesOfChildren a above k ts).map fun p => (p.above.length, p.index)
  | [] => by
    intro k
    rw [Tree.flattenForestAt, Tree.placesOfChildren]
    rfl
  | t :: ts => by
    intro k
    rw [Tree.flattenForestAt, Tree.placesOfChildren, List.map_append,
      Tree.flattenAt_eq (k :: a) above t, Tree.flattenForestAt_eq a above ts (k + 1)]

end

namespace Forest

/-- The places of a forest in pre-order. -/
def places (f : Forest) : List Place :=
  Tree.placesOfChildren [] [] 0 f

/-- The places are listed in the order in which a forest is flattened. -/
theorem flatten_eq (f : Forest) : f.flatten = f.places.map fun p => (p.above.length, p.index) :=
  Tree.flattenForestAt_eq [] [] f 0

/-! ## New addresses -/

/-- The trees directly below an address; below the empty address is the whole forest. -/
def childrenAt (f : Forest) : Address → List Tree
  | [] => f
  | k :: a => ((f.childrenAt a)[k]?.map Tree.children).getD []

/-- How many of the first `k` trees below an address have their top in the set. -/
def keptBefore (f : Forest) (keep : IndexSet) (a : Address) (k : Nat) : Nat :=
  ((f.childrenAt a).take k).countP fun t => decide (t.index ∈ keep)

/-- An address after restriction: what is numbered at each level are the trees that are kept. -/
def newAddress (f : Forest) (keep : IndexSet) : Address → Address
  | [] => []
  | k :: a => f.keptBefore keep a k :: f.newAddress keep a

/-- A place after restriction. -/
def moved (f : Forest) (keep : IndexSet) (p : Place) : Place :=
  { p with address := f.newAddress keep p.address }

/-- At every level of an address there is a tree with its top in the set. -/
def KeptAt (f : Forest) (keep : IndexSet) : Address → Prop
  | [] => True
  | k :: a => (∃ t, (f.childrenAt a)[k]? = some t ∧ t.index ∈ keep) ∧ f.KeptAt keep a

section Kept

variable {f : Forest} {keep : IndexSet}

theorem childrenAt_cons {a : Address} {k : Nat} {t : Tree} (h : (f.childrenAt a)[k]? = some t) :
    f.childrenAt (k :: a) = t.children := by
  rw [childrenAt, h]
  rfl

/-- The number goes up behind a tree that is kept, and behind no other. -/
theorem keptBefore_succ {a : Address} {k : Nat} {t : Tree} (h : (f.childrenAt a)[k]? = some t) :
    f.keptBefore keep a (k + 1) = f.keptBefore keep a k + if t.index ∈ keep then 1 else 0 := by
  unfold keptBefore
  rw [List.take_add_one, h, Option.toList_some, List.countP_append, List.countP_singleton]
  simp

theorem keptBefore_mono {a : Address} {j k : Nat} (h : j ≤ k) :
    f.keptBefore keep a j ≤ f.keptBefore keep a k :=
  (List.take_sublist_take_left h).countP_le

theorem keptBefore_lt {a : Address} {j k : Nat} {t : Tree} (ht : (f.childrenAt a)[j]? = some t)
    (hkeep : t.index ∈ keep) (hjk : j < k) : f.keptBefore keep a j < f.keptBefore keep a k := by
  have hstep : f.keptBefore keep a (j + 1) = f.keptBefore keep a j + 1 := by
    rw [keptBefore_succ ht, if_pos hkeep]
  have hle : f.keptBefore keep a (j + 1) ≤ f.keptBefore keep a k := keptBefore_mono hjk
  omega

/-- What is kept can be told apart by its new address. -/
theorem newAddress_inj : ∀ {a b : Address}, f.KeptAt keep a → f.KeptAt keep b →
    f.newAddress keep a = f.newAddress keep b → a = b
  | [], [], _, _, _ => rfl
  | [], _ :: _, _, _, h => by cases h
  | _ :: _, [], _, _, h => by cases h
  | j :: a, k :: b, ⟨⟨t, ht, htkeep⟩, ha⟩, ⟨⟨u, hu, hukeep⟩, hb⟩, h => by
    obtain ⟨hnumber, haddress⟩ := List.cons.inj h
    obtain rfl := newAddress_inj ha hb haddress
    rcases Nat.lt_trichotomy j k with hjk | rfl | hkj
    · exact absurd hnumber (Nat.ne_of_lt (keptBefore_lt ht htkeep hjk))
    · rfl
    · exact absurd hnumber.symm (Nat.ne_of_lt (keptBefore_lt hu hukeep hkj))

end Kept

end Forest

/-! ## The places that are left -/

section Places

variable {f : Forest} {keep : IndexSet}

mutual

/-- The top of a tree is at or above each of its places, and so is what is above the tree. -/
theorem Tree.lineage_of_placesAt {a : Address} {above : List Nat} {p : Forest.Place} :
    ∀ t : Tree, p ∈ t.placesAt a above → t.index :: above ⊆ p.index :: p.above
  | .node i ts => by
    intro hp
    rw [Tree.placesAt] at hp
    rcases List.mem_cons.mp hp with rfl | hp
    · exact List.Subset.refl _
    · exact Tree.lineage_of_placesOfChildren ts 0 hp

theorem Tree.lineage_of_placesOfChildren {a : Address} {above : List Nat} {p : Forest.Place} :
    ∀ (ts : List Tree) (k : Nat), p ∈ Tree.placesOfChildren a above k ts →
      above ⊆ p.index :: p.above
  | [] => by
    intro k hp
    rw [Tree.placesOfChildren] at hp
    exact absurd hp List.not_mem_nil
  | t :: ts => by
    intro k hp
    rw [Tree.placesOfChildren] at hp
    rcases List.mem_append.mp hp with hp | hp
    · exact List.Subset.trans (List.subset_cons_self _ _) (Tree.lineage_of_placesAt t hp)
    · exact Tree.lineage_of_placesOfChildren ts (k + 1) hp

end

/-- No place survives in a tree whose top is not in the set. -/
theorem Tree.filter_survives_eq_nil {a : Address} {above : List Nat} {t : Tree}
    (h : t.index ∉ keep) : (t.placesAt a above).filter (·.Survives keep) = [] := by
  refine List.filter_eq_nil_iff.mpr ?_
  intro p hp hsurvives
  obtain ⟨hindex, habove⟩ := of_decide_eq_true hsurvives
  rcases List.mem_cons.mp (Tree.lineage_of_placesAt t hp List.mem_cons_self) with he | hmem
  · exact h (he ▸ hindex)
  · exact h (habove _ hmem)

mutual

/-- A place of a tree that survives is kept at every level. -/
theorem Tree.keptAt_of_placesAt {a : Address} {above : List Nat} {p : Forest.Place} {k : Nat}
    (hp : p.Survives keep) : ∀ t : Tree, (f.childrenAt a)[k]? = some t → f.KeptAt keep a →
      p ∈ t.placesAt (k :: a) above → f.KeptAt keep p.address
  | .node i ts => by
    intro ht ha hmem
    have hi : i ∈ keep := by
      rcases List.mem_cons.mp (Tree.lineage_of_placesAt _ hmem List.mem_cons_self) with he | h
      · rw [Tree.index] at he
        exact he ▸ hp.1
      · exact hp.2 _ h
    have hka : f.KeptAt keep (k :: a) := ⟨⟨_, ht, hi⟩, ha⟩
    rw [Tree.placesAt] at hmem
    rcases List.mem_cons.mp hmem with rfl | hmem
    · exact hka
    · exact Tree.keptAt_of_placesOfChildren hp ts [] (Forest.childrenAt_cons ht) hka hmem

/-- The same among trees side by side, those after the trees `before`. -/
theorem Tree.keptAt_of_placesOfChildren {a : Address} {above : List Nat} {p : Forest.Place}
    (hp : p.Survives keep) : ∀ (ts before : List Tree), f.childrenAt a = before ++ ts →
      f.KeptAt keep a → p ∈ Tree.placesOfChildren a above before.length ts → f.KeptAt keep p.address
  | [], before => by
    intro _ _ hmem
    rw [Tree.placesOfChildren] at hmem
    exact absurd hmem List.not_mem_nil
  | t :: ts, before => by
    intro hsplit ha hmem
    rw [Tree.placesOfChildren] at hmem
    rcases List.mem_append.mp hmem with hmem | hmem
    · refine Tree.keptAt_of_placesAt hp t ?_ ha hmem
      rw [hsplit, List.getElem?_append_right (Nat.le_refl _), Nat.sub_self]
      rfl
    · have hlater : f.childrenAt a = (before ++ [t]) ++ ts := by
        rw [hsplit, List.append_assoc]
        rfl
      have hnumbered : p ∈ Tree.placesOfChildren a above (before ++ [t]).length ts := by
        rw [List.length_append]
        exact hmem
      exact Tree.keptAt_of_placesOfChildren hp ts (before ++ [t]) hlater ha hnumbered

end

mutual

/-- The places of a tree that is kept, after restriction. -/
theorem Tree.placesAt_restrict {a : Address} {above : List Nat} {k : Nat}
    (habove : ∀ i ∈ above, i ∈ keep) : ∀ t : Tree, (f.childrenAt a)[k]? = some t → t.index ∈ keep →
      (t.restrict keep).placesAt (f.newAddress keep (k :: a)) above
        = ((t.placesAt (k :: a) above).filter (·.Survives keep)).map (f.moved keep)
  | .node i ts => by
    intro ht hi
    have hbelow : ∀ j ∈ i :: above, j ∈ keep := List.forall_mem_cons.mpr ⟨hi, habove⟩
    have hchildren := Tree.placesOfChildren_restrict hbelow ts [] (Forest.childrenAt_cons ht)
    have htop : (⟨i, k :: a, above⟩ : Forest.Place).Survives keep := ⟨hi, habove⟩
    rw [Tree.restrict, Tree.placesAt, Tree.placesAt, List.filter_cons, if_pos (decide_eq_true htop),
      List.map_cons]
    exact congrArg _ hchildren

/-- The places of trees side by side, after restriction: what is left of the trees `before` has been
numbered already. -/
theorem Tree.placesOfChildren_restrict {a : Address} {above : List Nat}
    (habove : ∀ i ∈ above, i ∈ keep) : ∀ ts before : List Tree, f.childrenAt a = before ++ ts →
      Tree.placesOfChildren (f.newAddress keep a) above (f.keptBefore keep a before.length)
          (Forest.restrict keep ts)
        = ((Tree.placesOfChildren a above before.length ts).filter (·.Survives keep)).map
            (f.moved keep)
  | [], before => by
    intro _
    rw [Forest.restrict, Tree.placesOfChildren, Tree.placesOfChildren]
    rfl
  | t :: ts, before => by
    intro hsplit
    have ht : (f.childrenAt a)[before.length]? = some t := by
      rw [hsplit, List.getElem?_append_right (Nat.le_refl _), Nat.sub_self]
      rfl
    have hlater := Tree.placesOfChildren_restrict habove ts (before ++ [t])
      (by rw [hsplit, List.append_assoc]; rfl)
    rw [List.length_append, List.length_singleton] at hlater
    rw [Tree.placesOfChildren, List.filter_append, List.map_append, Forest.restrict, ← hlater,
      Forest.keptBefore_succ ht]
    by_cases hkeep : t.index ∈ keep
    · rw [if_pos hkeep, if_pos hkeep, Tree.placesOfChildren,
        ← Tree.placesAt_restrict habove t ht hkeep]
      rfl
    · rw [if_neg hkeep, if_neg hkeep, Tree.filter_survives_eq_nil hkeep]
      rfl

end

end Places

namespace Forest

variable {f : Forest} {keep : IndexSet}

theorem Place.Survives.keptAt {p : Place} (h : p.Survives keep) (hp : p ∈ f.places) :
    f.KeptAt keep p.address := by
  have hroots : f.KeptAt keep [] := by
    rw [KeptAt]
    exact trivial
  exact Tree.keptAt_of_placesOfChildren h f [] rfl hroots hp

/-- **The places of a restricted forest are those that survive, in the same order.** -/
theorem places_restrict (f : Forest) (keep : IndexSet) :
    places (restrict keep f) = (f.places.filter (·.Survives keep)).map (f.moved keep) :=
  Tree.placesOfChildren_restrict (f := f) (a := []) (fun _ hi => absurd hi List.not_mem_nil) f []
    rfl

/-- Of the two occurrences of an index, one goes with what is above it. -/
example : places (restrict (IndexSet.ofList [0, 2]) [.node 0 [.node 1 [.node 2 []], .node 2 []]])
    = [⟨0, [0], []⟩, ⟨2, [0, 0], [0]⟩] := by
  decide

section Moved

variable {p q : Place} (hp : f.KeptAt keep p.address) (hq : f.KeptAt keep q.address)
include hp hq

/-- Different places stay different. -/
theorem moved_inj (h : f.moved keep p = f.moved keep q) : p = q := by
  obtain ⟨hindex, haddress, habove⟩ := Place.mk.inj h
  have := newAddress_inj hp hq haddress
  cases p
  cases q
  simp_all

/-- Parents stay parents, and nothing else becomes one. -/
theorem parentOf_moved : (f.moved keep p).ParentOf (f.moved keep q) ↔ p.ParentOf q := by
  constructor
  · rintro ⟨j, hj⟩
    change f.newAddress keep q.address = j :: f.newAddress keep p.address at hj
    cases hqa : q.address with
    | nil =>
      rw [hqa] at hj
      cases hj
    | cons k b =>
      rw [hqa] at hj hq
      obtain ⟨-, hb⟩ := List.cons.inj hj
      exact ⟨k, by rw [hqa, newAddress_inj hq.2 hp hb]⟩
  · rintro ⟨k, hk⟩
    refine ⟨f.keptBefore keep p.address k, ?_⟩
    show f.newAddress keep q.address = _
    rw [hk]
    rfl

/-- Siblings stay siblings, in their order. -/
theorem earlierSibling_moved :
    (f.moved keep p).EarlierSibling (f.moved keep q) ↔ p.EarlierSibling q := by
  constructor
  · rintro ⟨a, j', k', hj', hk', hlt⟩
    change f.newAddress keep p.address = j' :: a at hj'
    change f.newAddress keep q.address = k' :: a at hk'
    cases hpa : p.address with
    | nil =>
      rw [hpa] at hj'
      cases hj'
    | cons j b =>
      cases hqa : q.address with
      | nil =>
        rw [hqa] at hk'
        cases hk'
      | cons k c =>
        rw [hpa] at hp hj'
        rw [hqa] at hq hk'
        obtain ⟨rfl, hb⟩ := List.cons.inj hj'
        obtain ⟨rfl, hc⟩ := List.cons.inj hk'
        obtain rfl := newAddress_inj hp.2 hq.2 (hb.trans hc.symm)
        refine ⟨b, j, k, hpa, hqa, ?_⟩
        by_contra hkj
        exact absurd (keptBefore_mono (Nat.le_of_not_lt hkj)) (Nat.not_le_of_lt hlt)
  · rintro ⟨a, j, k, hj, hk, hjk⟩
    rw [hj] at hp
    obtain ⟨⟨t, ht, hkeep⟩, -⟩ := hp
    refine ⟨f.newAddress keep a, f.keptBefore keep a j, f.keptBefore keep a k, ?_, ?_,
      keptBefore_lt ht hkeep hjk⟩
    · show f.newAddress keep p.address = _
      rw [hj]
      rfl
    · show f.newAddress keep q.address = _
      rw [hk]
      rfl

end Moved

/-- **The laws of restriction**, for forests in which indexes may be repeated and for sets that need
not hold what is above their members. Restricting twice is restricting to what is in both sets, so
restricting again changes nothing and the order of two restrictions does not matter. An occurrence
survives exactly where its index and all indexes above it are in the set; survivors are listed in
the same pre-order, and they keep their parents and the order among siblings. -/
theorem restrict_laws (f : Forest) (s s' : IndexSet) :
    restrict s' (restrict s f) = restrict (s.inter s') f ∧
    restrict s (restrict s f) = restrict s f ∧
    restrict s' (restrict s f) = restrict s (restrict s' f) ∧
    f.flatten = f.places.map (fun p => (p.above.length, p.index)) ∧
    places (restrict s f) = (f.places.filter (·.Survives s)).map (f.moved s) ∧
    ∀ p ∈ f.places, ∀ q ∈ f.places, p.Survives s → q.Survives s →
      (f.moved s p = f.moved s q → p = q) ∧
      ((f.moved s p).ParentOf (f.moved s q) ↔ p.ParentOf q) ∧
      ((f.moved s p).EarlierSibling (f.moved s q) ↔ p.EarlierSibling q) := by
  refine ⟨restrict_restrict s s' f, ?_, ?_, f.flatten_eq, places_restrict f s, ?_⟩
  · rw [restrict_restrict, IndexSet.inter_self]
  · rw [restrict_restrict, restrict_restrict, IndexSet.inter_comm]
  · intro p hp q hq hps hqs
    have hpk := hps.keptAt hp
    have hqk := hqs.keptAt hq
    exact ⟨moved_inj hpk hqk, parentOf_moved hpk hqk, earlierSibling_moved hpk hqk⟩

end Forest

end CallVicinity
