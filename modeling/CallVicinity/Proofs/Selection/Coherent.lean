import CallVicinity.Proofs.Graph.CallEdges
import CallVicinity.Proofs.Graph.Nesting
import CallVicinity.Selection.Basic

/-!
# What a selection holds

A selection is made in two walks over the graph, and each could leave it: the search along the calls
looks up every declaration it reaches, and the closure climbs from every one of them to its owners,
for as many steps as the graph has declarations. Neither walk fails on a graph whose ownership is
sound (`Graph.Owned`) and whose calls stay inside it (`Graph.EdgesInside`), and neither stops early:

> `Graph.Owned.exists_closure`: a declaration is in the closure exactly if it is, or owns, directly
> or not, one of the declarations that the closure started from.

The early exit of a climb is what needs an argument: it stops at the first declaration that is there
already, so everything that is there must have its owner there, or be about to get it. `Graph.Grows`
says so for one climb and is kept from climb to climb.

`Selection.Coherent` is the relation between the sets of a selection that comes out of this, and
`Graph.Owned.select_cases` says that a request has a coherent selection or matches nothing at all.
-/

namespace CallVicinity

namespace Graph

/-- One declaration calls the other or is called by it. -/
def Adjacent (g : Graph) (i j : Nat) : Prop :=
  g.Calls i j ∨ g.CalledBy i j

/-- Calls lead from declarations of the graph to declarations of the graph. -/
def EdgesInside (g : Graph) : Prop :=
  ∀ i j, g.Adjacent i j → j < g.size

theorem Paired.edgesInside {g : Graph} (hg : g.Paired) : g.EdgesInside := by
  intro i j h
  rcases h with hcalls | hcalled
  · obtain ⟨n, hn, -⟩ := (hg i j).mp hcalls
    exact node?_lt hn
  · obtain ⟨n, hn, -⟩ := (hg j i).mpr hcalled
    exact node?_lt hn

end Graph

theorem Draft.freeze_edgesInside {d : Draft} {sites : List Site} (hd : d.Lawful sites)
    (source : List Char) : (d.freeze source).EdgesInside :=
  (freeze_paired hd source).edgesInside

/-! ## The search along the calls -/

theorem IndexSet.mem_foldr_union {sets : List IndexSet} {j : Nat} :
    j ∈ sets.foldr IndexSet.union ∅ ↔ ∃ s ∈ sets, j ∈ s := by
  induction sets with
  | nil => simp
  | cons s sets ih =>
    rw [List.foldr_cons, IndexSet.mem_union, ih]
    simp only [List.mem_cons, exists_eq_or_imp]

namespace Graph

section Search

variable {g : Graph}

theorem exists_neighbors {i : Nat} (hi : i < g.size) :
    ∃ near, g.neighbors? i = some near ∧ ∀ j, j ∈ near ↔ g.Adjacent i j := by
  obtain ⟨n, hn⟩ := exists_node? hi
  refine ⟨n.calls.union n.calledBy, ?_, ?_⟩
  · unfold neighbors?
    rw [hn]
    rfl
  · intro j
    rw [IndexSet.mem_union, mem_calls_iff hn, mem_calledBy_iff hn]
    rfl

/-- One round finds what is adjacent to the frontier and was not seen before. -/
theorem exists_beyond (seen : IndexSet) {frontier : IndexSet} (hf : ∀ i ∈ frontier, i < g.size) :
    ∃ next, g.beyond? seen frontier = some next ∧
      ∀ j, j ∈ next ↔ j ∉ seen ∧ ∃ i ∈ frontier, g.Adjacent i j := by
  have hlook : ∀ i ∈ frontier.toList,
      ∃ near, g.neighbors? i = some near ∧ ∀ j, j ∈ near ↔ g.Adjacent i j :=
    fun i hi => exists_neighbors (hf i hi)
  obtain ⟨sets, hsets, hall⟩ := exists_mapM hlook
  refine ⟨(sets.foldr IndexSet.union ∅).filter fun i => !decide (i ∈ seen), ?_, ?_⟩
  · unfold beyond?
    rw [hsets]
    rfl
  · intro j
    have hnear : (∃ i ∈ frontier.toList, g.Adjacent i j) ↔ ∃ near ∈ sets, j ∈ near :=
      exists_mem_iff_of_forall₂ hall fun _ _ hR => (hR j).symm
    rw [IndexSet.mem_filter, IndexSet.mem_foldr_union, ← hnear]
    simp only [IndexSet.mem_toList, Bool.not_eq_true', decide_eq_false_iff_not]
    exact and_comm

/-- The rounds from a frontier inside the graph stay inside, and the frontier is the first of
them. -/
theorem EdgesInside.exists_rounds (he : g.EdgesInside) :
    ∀ (radius : Nat) (seen : IndexSet) (distance : Nat) {frontier : IndexSet},
      (∀ i ∈ frontier, i < g.size) →
      ∃ ds, g.rounds? radius seen frontier distance = some ds ∧
        (∀ x ∈ ds, x.1 < g.size) ∧ ∀ i ∈ frontier, (i, distance) ∈ ds := by
  intro radius
  induction radius with
  | zero =>
    intro seen distance frontier hf
    refine ⟨frontier.toList.map (·, distance), rfl, ?_, ?_⟩
    · intro x hx
      obtain ⟨i, hi, rfl⟩ := List.mem_map.mp hx
      exact hf i hi
    · intro i hi
      exact List.mem_map.mpr ⟨i, hi, rfl⟩
  | succ radius ih =>
    intro seen distance frontier hf
    by_cases hempty : frontier.isEmpty = true
    · -- the search ends here, whatever is left of the radius
      refine ⟨[], ?_, fun x hx => absurd hx List.not_mem_nil, ?_⟩
      · rw [rounds?, if_pos hempty]
      · intro i hi
        exact absurd hi (IndexSet.not_mem_of_isEmpty hempty i)
    · obtain ⟨next, hnext, hmem⟩ := exists_beyond seen hf
      have hin : ∀ j ∈ next, j < g.size := by
        intro j hj
        obtain ⟨-, i, -, hij⟩ := (hmem j).mp hj
        exact he i j hij
      obtain ⟨later, hlater, hlt, -⟩ := ih (seen.union next) (distance + 1) hin
      refine ⟨frontier.toList.map (·, distance) ++ later, ?_, ?_, ?_⟩
      · rw [rounds?, if_neg hempty, hnext]
        show (do
          let later ← g.rounds? radius (seen.union next) next (distance + 1)
          return frontier.toList.map (·, distance) ++ later) = _
        rw [hlater]
        rfl
      · intro x hx
        rcases List.mem_append.mp hx with hhere | hthere
        · obtain ⟨i, hi, rfl⟩ := List.mem_map.mp hhere
          exact hf i hi
        · exact hlt x hthere
      · intro i hi
        exact List.mem_append_left _ (List.mem_map.mpr ⟨i, hi, rfl⟩)

/-- The search from seeds inside the graph succeeds inside it, with the seeds at distance `0`. -/
theorem EdgesInside.exists_reach (he : g.EdgesInside) {seeds : IndexSet} (radius : Nat)
    (hs : ∀ i ∈ seeds, i < g.size) :
    ∃ ds, g.reach? seeds radius = some ds ∧
      (∀ x ∈ ds, x.1 < g.size) ∧ ∀ i ∈ seeds, (i, 0) ∈ ds := by
  obtain ⟨ds, hds, hlt, hseeds⟩ := he.exists_rounds radius seeds 0 hs
  refine ⟨ds.mergeSort fun a b => a.1 ≤ b.1, ?_, ?_, ?_⟩
  · unfold reach?
    rw [hds]
    rfl
  · intro x hx
    exact hlt x (List.mem_mergeSort.mp hx)
  · intro i hi
    exact List.mem_mergeSort.mpr (hseeds i hi)

end Search

/-! ## The closure under owners -/

/-- A set grows into another one: nothing is lost, and what is new is of a given origin and comes
with its owner. -/
structure Grows (g : Graph) (origin : Nat → Prop) (found found' : IndexSet) : Prop where
  keeps : ∀ i ∈ found, i ∈ found'
  added : ∀ i ∈ found', i ∈ found ∨ (origin i ∧ ∀ p, g.Owner i p → p ∈ found')

section Closure

variable {g : Graph} {depth : Nat → Nat} {origin : Nat → Prop}

theorem Grows.refl (found : IndexSet) : g.Grows origin found found :=
  ⟨fun _ hi => hi, fun _ hi => Or.inl hi⟩

theorem Grows.trans {s t u : IndexSet} (h : g.Grows origin s t) (h' : g.Grows origin t u) :
    g.Grows origin s u := by
  refine ⟨fun i hi => h'.keeps i (h.keeps i hi), ?_⟩
  intro i hi
  rcases h'.added i hi with hold | hnew
  · rcases h.added i hold with hs | ho
    · exact Or.inl hs
    · exact Or.inr ⟨ho.1, fun p hp => h'.keeps p (ho.2 p hp)⟩
  · exact Or.inr hnew

/-- A climb along a chain that the bound covers ends with the first of the chain in the set. The
rest of the chain is either added or was there. -/
theorem OwnerChain.exists_climb {next : Option Nat} {as : List Nat} (h : g.OwnerChain next as) :
    ∀ {fuel : Nat} (found : IndexSet), as.length ≤ fuel → (∀ a ∈ as, origin a) →
      ∃ found', g.climb? fuel next found = some found' ∧ g.Grows origin found found' ∧
        ∀ p, next = some p → p ∈ found' := by
  induction h with
  | stop =>
    intro fuel found _ _
    refine ⟨found, ?_, .refl found, fun p hp => absurd hp (by simp)⟩
    cases fuel <;> rfl
  | @step i n as hn _ ih =>
    intro fuel found hfuel horigin
    cases fuel with
    | zero => exact absurd hfuel (by simp)
    | succ fuel =>
      by_cases hi : i ∈ found
      · -- the early exit
        refine ⟨found, ?_, .refl found, ?_⟩
        · rw [climb?, if_pos hi]
        · intro p hp
          rw [← Option.some.inj hp]
          exact hi
      · obtain ⟨found', hclimb, hgrows, hfirst⟩ :=
          ih (found.insert i) (Nat.le_of_succ_le_succ hfuel)
            fun a ha => horigin a (List.mem_cons_of_mem _ ha)
        have hmem : i ∈ found' := hgrows.keeps i (IndexSet.mem_insert.mpr (Or.inl rfl))
        refine ⟨found', ?_, ?_, ?_⟩
        · rw [climb?, if_neg hi, hn]
          exact hclimb
        · refine ⟨fun j hj => hgrows.keeps j (IndexSet.mem_insert.mpr (Or.inr hj)), ?_⟩
          intro j hj
          rcases hgrows.added j hj with hold | hnew
          · rcases IndexSet.mem_insert.mp hold with hji | hj'
            · -- the owner of `i` is the first of the rest of the chain
              rw [hji]
              refine Or.inr ⟨horigin i List.mem_cons_self, ?_⟩
              intro p hp
              exact hfirst p ((owner_iff hn).mp hp)
            · exact Or.inl hj'
          · exact Or.inr hnew
        · intro p hp
          rw [← Option.some.inj hp]
          exact hmem

/-- The climbs from a list of declarations, one after the other, give each of them its owner. -/
theorem Owned.exists_climbs (hg : g.Owned depth) (origin : Nat → Prop) :
    ∀ (is : List Nat) (found : IndexSet), (∀ i ∈ is, i < g.size) →
      (∀ i ∈ is, ∀ a, Relation.ReflTransGen g.Owner i a → origin a) →
      ∃ found',
        is.foldlM (fun found i => do g.climb? g.size (← g.node? i).owner found) found
          = some found' ∧
        g.Grows origin found found' ∧ ∀ i ∈ is, ∀ p, g.Owner i p → p ∈ found' := by
  intro is
  induction is with
  | nil =>
    intro found _ _
    exact ⟨found, rfl, .refl found, fun i hi => absurd hi List.not_mem_nil⟩
  | cons i is ih =>
    intro found hlt horigin
    obtain ⟨n, hn⟩ := exists_node? (hlt i List.mem_cons_self)
    obtain ⟨as, has, hlen⟩ := hg.exists_owners hn
    have hchain : ∀ a ∈ as, origin a := by
      intro a ha
      obtain ⟨p, hp, hpa⟩ := has.above a ha
      exact horigin i List.mem_cons_self a (.head ⟨n, hn, hp⟩ hpa)
    obtain ⟨mid, hmid, hgrows, hfirst⟩ :=
      has.exists_climb found (Nat.le_of_lt hlen) hchain
    obtain ⟨found', hrest, hgrows', howners⟩ :=
      ih mid (fun j hj => hlt j (List.mem_cons_of_mem _ hj))
        fun j hj => horigin j (List.mem_cons_of_mem _ hj)
    refine ⟨found', ?_, hgrows.trans hgrows', ?_⟩
    · rw [List.foldlM_cons, hn]
      show (g.climb? g.size n.owner found >>= fun found => is.foldlM _ found) = some found'
      rw [hmid]
      exact hrest
    · intro j hj p hp
      rcases List.mem_cons.mp hj with hE | hT
      · rw [hE, owner_iff hn] at hp
        exact hgrows'.keeps p (hfirst p hp)
      · exact howners j hT p hp

/-- **The closure holds what it started from with all that is around it, and nothing else.** -/
theorem Owned.exists_closure (hg : g.Owned depth) {start : IndexSet}
    (hs : ∀ i ∈ start, i < g.size) :
    ∃ included, g.closure? start = some included ∧
      ∀ a, a ∈ included ↔ ∃ i ∈ start, Relation.ReflTransGen g.Owner i a := by
  obtain ⟨included, hfold, hgrows, howners⟩ :=
    hg.exists_climbs (fun a => ∃ i ∈ start, Relation.ReflTransGen g.Owner i a)
      start.toList start hs fun i hi a ha => ⟨i, hi, ha⟩
  have hclosed : g.ClosedUp included := by
    intro i p hip hi
    -- what the closure started from got its owner by its own climb, all else came with its owner
    rcases hgrows.added i hi with hold | hnew
    · exact howners i hold p hip
    · exact hnew.2 p hip
  refine ⟨included, hfold, ?_⟩
  intro a
  refine ⟨?_, ?_⟩
  · intro ha
    rcases hgrows.added a ha with hold | hnew
    · exact ⟨a, hold, .refl⟩
    · exact hnew.1
  · intro h
    obtain ⟨i, hi, hia⟩ := h
    exact hclosed.mem_above hia (hgrows.keeps i hi)

end Closure

end Graph

/-! ## Selections -/

/-- The sets of a selection lie in each other as they should: the seeds are shown in full, what is
shown in full is reached, and what is included is what is reached with all that is around it. -/
structure Selection.Coherent (s : Selection) (g : Graph) : Prop where
  seeds_full : ∀ i ∈ s.seeds, i ∈ s.fullDetail
  full_context : ∀ i ∈ s.fullDetail, i ∈ s.context
  context_lt : ∀ i ∈ s.context, i < g.size
  included_iff : ∀ a, a ∈ s.included ↔ ∃ i ∈ s.context, Relation.ReflTransGen g.Owner i a

section Coherent

variable {g : Graph} {s : Selection} {depth : Nat → Nat}

theorem Selection.Coherent.seeds_lt (h : s.Coherent g) : ∀ i ∈ s.seeds, i < g.size :=
  fun i hi => h.context_lt i (h.full_context i (h.seeds_full i hi))

theorem Selection.Coherent.context_included (h : s.Coherent g) {i : Nat} (hi : i ∈ s.context) :
    i ∈ s.included :=
  (h.included_iff i).mpr ⟨i, hi, .refl⟩

theorem Selection.Coherent.closedUp (h : s.Coherent g) : g.ClosedUp s.included := by
  intro i p hip hi
  obtain ⟨c, hc, hci⟩ := (h.included_iff i).mp hi
  exact (h.included_iff p).mpr ⟨c, hc, hci.tail hip⟩

theorem Selection.Coherent.included_lt (h : s.Coherent g) (hg : g.Owned depth) {i : Nat}
    (hi : i ∈ s.included) : i < g.size := by
  obtain ⟨c, hc, hci⟩ := (h.included_iff i).mp hi
  cases hci with
  | refl => exact h.context_lt i hc
  | tail _ hstep => exact (hg.upward hstep).1

end Coherent

theorem Distances.mem_within {ds : Distances} {radius i : Nat} :
    i ∈ ds.within radius ↔ ∃ d, (i, d) ∈ ds ∧ d ≤ radius := by
  unfold Distances.within
  simp only [IndexSet.mem_ofList, List.mem_map, List.mem_filter, decide_eq_true_eq]
  refine ⟨?_, ?_⟩
  · intro h
    obtain ⟨x, ⟨hx, hle⟩, rfl⟩ := h
    exact ⟨x.2, hx, hle⟩
  · intro h
    obtain ⟨d, hd, hle⟩ := h
    exact ⟨(i, d), ⟨hd, hle⟩, rfl⟩

theorem Distances.mem_reached {ds : Distances} {i : Nat} : i ∈ ds.reached ↔ ∃ d, (i, d) ∈ ds := by
  unfold Distances.reached
  simp only [IndexSet.mem_ofList, List.mem_map, Prod.exists, exists_and_right, exists_eq_right]

namespace Graph

section Select

variable {g : Graph} {depth : Nat → Nat}

/-- Around seeds inside the graph there is a coherent selection, whatever the radii. -/
theorem Owned.exists_selectFrom (hg : g.Owned depth) (he : g.EdgesInside) {seeds : IndexSet}
    (hs : ∀ i ∈ seeds, i < g.size) (r : Request) :
    ∃ s, g.selectFrom? seeds r = some s ∧ s.seeds = seeds ∧ s.Coherent g := by
  obtain ⟨ds, hds, hlt, hseeds⟩ := he.exists_reach r.reach hs
  have hcontext : ∀ i ∈ ds.reached, i < g.size := by
    intro i hi
    obtain ⟨d, hd⟩ := Distances.mem_reached.mp hi
    exact hlt _ hd
  obtain ⟨included, hclosure, hmem⟩ := hg.exists_closure hcontext
  refine ⟨{
    seeds
    fullDetail := ds.within r.fullRadius
    context := ds.reached
    included
    distances := ds
    fullRadius := r.fullRadius
    contextRadius := r.reach }, ?_, rfl, ?_⟩
  · unfold selectFrom?
    rw [hds]
    show (g.closure? ds.reached >>= _) = _
    rw [hclosure]
    rfl
  · refine ⟨?_, ?_, hcontext, hmem⟩
    · intro i hi
      exact Distances.mem_within.mpr ⟨0, hseeds i hi, Nat.zero_le _⟩
    · intro i hi
      obtain ⟨d, hd, -⟩ := Distances.mem_within.mp hi
      exact Distances.mem_reached.mpr ⟨d, hd⟩

theorem indexesWhere_lt {p : Declaration → Bool} {i : Nat} (h : i ∈ g.indexesWhere p) :
    i < g.size := by
  obtain ⟨n, hn, -⟩ := mem_indexesWhere.mp h
  exact node?_lt hn

/-- Whatever a token is, it stands for declarations of the graph. -/
theorem matching_lt {token : String} {i : Nat} (h : i ∈ g.matching token) : i < g.size := by
  unfold matching at h
  split at h
  · next k hk =>
    rw [IndexSet.mem_ofList, List.mem_singleton] at h
    obtain ⟨hlt, -⟩ := Array.findIdx?_eq_some_iff_getElem.mp hk
    rw [h]
    exact hlt
  · split at h
    · have hlike : i ∈ g.likeNamed token := IndexSet.mem_ofList.mp h
      unfold likeNamed at hlike
      exact indexesWhere_lt hlike
    · have hnamed : i ∈ g.named token := IndexSet.mem_ofList.mp h
      exact indexesWhere_lt hnamed

/-- A token stands for something if it is a name or, without regard to case, a part of one. -/
theorem exists_matching {token : String} {i : Nat}
    (h : i ∈ g.named token ∨ i ∈ g.likeNamed token) : ∃ j, j ∈ g.matching token := by
  unfold matching
  split
  · next k _ => exact ⟨k, IndexSet.mem_ofList.mpr List.mem_cons_self⟩
  · split
    · next hnil =>
      rw [hnil] at h
      exact ⟨i, IndexSet.mem_ofList.mpr (h.resolve_left List.not_mem_nil)⟩
    · next hne =>
      obtain ⟨j, hj⟩ := List.exists_mem_of_ne_nil _ hne
      exact ⟨j, IndexSet.mem_ofList.mpr hj⟩

/-- The name of a declaration stands for something, be it this declaration or one with that id. -/
theorem exists_matching_name {i : Nat} {n : Declaration} (hn : g.node? i = some n) :
    ∃ j, j ∈ g.matching n.name :=
  exists_matching (Or.inl (mem_indexesWhere.mpr ⟨n, hn, beq_self_eq_true n.name⟩))

theorem matchingAny_lt {tokens : List String} {i : Nat} (h : i ∈ g.matchingAny tokens) :
    i < g.size := by
  unfold matchingAny at h
  induction tokens with
  | nil => exact absurd h (IndexSet.not_mem_empty i)
  | cons token tokens ih =>
    rw [List.foldr_cons] at h
    rcases IndexSet.mem_union.mp h with hE | hT
    · exact matching_lt hE
    · exact ih hT

/-- **A request has a coherent selection around the declarations that its tokens stand for**, or
they stand for none and the request fails with the tokens. -/
theorem Owned.select_cases (hg : g.Owned depth) (he : g.EdgesInside) (r : Request) :
    (g.matchingAny r.seeds).isEmpty = true ∧ g.select r = .error (.seeds r.seeds) ∨
    ∃ s, g.select r = .ok s ∧ g.resolve r.seeds = .ok s.seeds ∧ s.Coherent g := by
  by_cases hempty : (g.matchingAny r.seeds).isEmpty = true
  · refine Or.inl ⟨hempty, ?_⟩
    unfold select resolve
    rw [if_pos hempty]
    rfl
  · have hresolve : g.resolve r.seeds = .ok (g.matchingAny r.seeds) := by
      unfold resolve
      rw [if_neg hempty]
    have hlt : ∀ i ∈ g.matchingAny r.seeds, i < g.size := fun i hi => matchingAny_lt hi
    obtain ⟨s, hs, hseeds, hcoherent⟩ := hg.exists_selectFrom he hlt r
    refine Or.inr ⟨s, ?_, ?_, hcoherent⟩
    · unfold select
      rw [hresolve]
      simp only [bind, Except.bind, hs]
      rfl
    · rw [hseeds]
      exact hresolve

/-- What a request selects is coherent. -/
theorem Owned.coherent_of_select (hg : g.Owned depth) (he : g.EdgesInside) {r : Request}
    {s : Selection} (h : g.select r = .ok s) : s.Coherent g := by
  rcases hg.select_cases he r with ⟨-, hselect⟩ | ⟨s', hselect, -, hs'⟩
  · rw [hselect] at h
    exact absurd h (by simp)
  · rw [hselect] at h
    rw [← Except.ok.inj h]
    exact hs'

end Select

end Graph

end CallVicinity
