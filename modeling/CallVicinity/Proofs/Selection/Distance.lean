import Mathlib.Combinatorics.SimpleGraph.Metric
import CallVicinity.Analysis
import CallVicinity.Proofs.Graph.Callers
import CallVicinity.Proofs.Selection.Coherent

/-!
# What a selection is exactly

How far a declaration is from the seeds can be said without the search: `Graph.distance` is the
length of a shortest walk from a seed along call edges, taken in either direction. The search goes
in rounds, and round `d` holds exactly what is at distance `d` (`Graph.Paired.mem_rounds`):

* what is at distance `d + 1` is adjacent to something at distance `d` and was not seen before
  (`Graph.Paired.distance_eq_succ`), and
* where a round is empty, all later ones would be, so that the search can stop
  (`Graph.Paired.exists_at_distance`).

Both need that a call edge is listed at both of its ends. With the closure of `Selection.Coherent`
this says what every part of a selection is (`Selection.Exact`), whatever the radii are:

> `Graph.build_select`: full texts are the ball of the full radius around the seeds, the outline is
> the ball of the larger radius, and what is included is the least set around that which holds the
> owner of each of its members.
-/

namespace CallVicinity

namespace Graph

/-- The call edges without their direction. -/
def undirected (g : Graph) : SimpleGraph Nat :=
  SimpleGraph.fromRel g.Calls

/-- The number of call edges on a shortest walk from a seed to declaration `i`; `⊤` where there is
no walk. -/
noncomputable def distance (g : Graph) (seeds : IndexSet) (i : Nat) : ℕ∞ :=
  ⨅ s ∈ seeds, g.undirected.edist s i

/-! ## Distances -/

section Distance

variable {g : Graph} {seeds : IndexSet}

theorem distance_le_iff {i k : Nat} :
    g.distance seeds i ≤ k ↔ ∃ s ∈ seeds, ∃ w : g.undirected.Walk s i, w.length ≤ k := by
  constructor
  · intro h
    by_contra hnone
    have hlong : ((k + 1 : ℕ) : ℕ∞) ≤ g.distance seeds i := by
      refine le_iInf₂ fun s hs => le_iInf fun w => ?_
      have hw : ¬ w.length ≤ k := fun hw => hnone ⟨s, hs, w, hw⟩
      exact Nat.cast_le.mpr (by omega)
    have := Nat.cast_le.mp (hlong.trans h)
    omega
  · intro h
    obtain ⟨s, hs, w, hw⟩ := h
    have hw' : (w.length : ℕ∞) ≤ k := Nat.cast_le.mpr hw
    exact (iInf₂_le s hs).trans (w.edist_le.trans hw')

theorem distance_le_zero {i : Nat} : g.distance seeds i ≤ (0 : ℕ) ↔ i ∈ seeds := by
  rw [distance_le_iff]
  constructor
  · intro h
    obtain ⟨s, hs, w, hw⟩ := h
    rw [← w.eq_of_length_eq_zero (Nat.le_zero.mp hw)]
    exact hs
  · intro hi
    exact ⟨i, hi, .nil, Nat.le_refl _⟩

theorem mem_iff_distance_eq_zero {i : Nat} : i ∈ seeds ↔ g.distance seeds i = (0 : ℕ) := by
  rw [← distance_le_zero]
  exact ⟨fun h => le_antisymm h zero_le, le_of_eq⟩

/-- Being at distance `d + 1` is being within `d + 1` but not within `d`. -/
theorem eq_succ_iff {n : ℕ∞} {d : ℕ} : n = (d + 1 : ℕ) ↔ n ≤ (d + 1 : ℕ) ∧ ¬ n ≤ d := by
  cases n with
  | top => simp [-Nat.cast_add]
  | coe n =>
    simp only [Nat.cast_inj, Nat.cast_le]
    omega

variable (hg : g.Paired)
include hg

theorem Paired.adjacent_iff {i j : Nat} : g.Adjacent i j ↔ g.Calls i j ∨ g.Calls j i := by
  unfold Adjacent
  rw [hg j i]

/-- One more step reaches what is adjacent to something that was within reach. -/
theorem Paired.distance_le_succ {i k : Nat} :
    g.distance seeds i ≤ (k + 1 : ℕ) ↔
      g.distance seeds i ≤ k ∨ ∃ j, g.distance seeds j ≤ k ∧ g.Adjacent j i := by
  constructor
  · intro h
    obtain ⟨s, hs, w, hw⟩ := distance_le_iff.mp h
    -- the last step of the walk is the first one of the way back
    cases hback : w.reverse with
    | nil => exact Or.inl (distance_le_iff.mpr ⟨_, hs, .nil, Nat.zero_le _⟩)
    | @cons _ j _ hadj back =>
      have hlen : back.length + 1 = w.length := by
        rw [← w.length_reverse, hback, SimpleGraph.Walk.length_cons]
      refine Or.inr ⟨j, distance_le_iff.mpr ⟨s, hs, back.reverse, ?_⟩, ?_⟩
      · rw [back.length_reverse]
        omega
      · rw [hg.adjacent_iff]
        exact ((SimpleGraph.fromRel_adj _ _ _).mp hadj).2.symm
  · intro h
    have hmore : ((k : ℕ) : ℕ∞) ≤ (k + 1 : ℕ) := Nat.cast_le.mpr (Nat.le_succ k)
    rcases h with hle | ⟨j, hj, hji⟩
    · exact hle.trans hmore
    · by_cases heq : j = i
      · rw [← heq]
        exact hj.trans hmore
      · obtain ⟨s, hs, w, hw⟩ := distance_le_iff.mp hj
        have hadj : g.undirected.Adj j i :=
          (SimpleGraph.fromRel_adj _ _ _).mpr ⟨heq, hg.adjacent_iff.mp hji⟩
        refine distance_le_iff.mpr ⟨s, hs, w.concat hadj, ?_⟩
        rw [SimpleGraph.Walk.length_concat]
        omega

/-- What is at distance `d + 1` is adjacent to something at distance `d` and not within `d`. -/
theorem Paired.distance_eq_succ {i d : Nat} :
    g.distance seeds i = (d + 1 : ℕ) ↔
      ¬ g.distance seeds i ≤ d ∧ ∃ j, g.distance seeds j = d ∧ g.Adjacent j i := by
  rw [eq_succ_iff]
  constructor
  · intro h
    obtain ⟨hle, hfar⟩ := h
    refine ⟨hfar, ?_⟩
    rcases hg.distance_le_succ.mp hle with hnear | ⟨j, hj, hji⟩
    · exact absurd hnear hfar
    · refine ⟨j, ?_, hji⟩
      -- nearer than `d`, it would have taken the declaration into reach before
      cases d with
      | zero => exact le_antisymm hj zero_le
      | succ e =>
        rw [eq_succ_iff]
        exact ⟨hj, fun hjnear => hfar (hg.distance_le_succ.mpr (Or.inr ⟨j, hjnear, hji⟩))⟩
  · intro h
    obtain ⟨hfar, j, hj, hji⟩ := h
    exact ⟨hg.distance_le_succ.mpr (Or.inr ⟨j, le_of_eq hj, hji⟩), hfar⟩

/-- On the way to a declaration at some distance there is one at every smaller distance. -/
theorem Paired.exists_at_distance {d : Nat} :
    ∀ {i : Nat} (more : Nat), g.distance seeds i = (d + more : ℕ) →
      ∃ j, g.distance seeds j = d := by
  intro i more
  induction more generalizing i with
  | zero => intro h; exact ⟨i, h⟩
  | succ more ih =>
    intro h
    obtain ⟨-, j, hj, -⟩ := hg.distance_eq_succ.mp h
    exact ih hj

/-! ## The rounds of the search -/

/-- After the round at distance `d` comes the one at distance `d + 1`. -/
theorem Paired.exists_next_round {seen frontier : IndexSet} {d : Nat}
    (hseen : ∀ i, i ∈ seen ↔ g.distance seeds i ≤ d)
    (hfrontier : ∀ i, i ∈ frontier ↔ g.distance seeds i = d)
    (hinside : ∀ i ∈ frontier, i < g.size) :
    ∃ next, g.beyond? seen frontier = some next ∧
      (∀ j, j ∈ next ↔ g.distance seeds j = (d + 1 : ℕ)) ∧
      (∀ j, j ∈ seen.union next ↔ g.distance seeds j ≤ (d + 1 : ℕ)) ∧
      ∀ j ∈ next, j < g.size := by
  obtain ⟨next, hnext, hmem⟩ := exists_beyond seen hinside
  have hround : ∀ j, j ∈ next ↔ g.distance seeds j = (d + 1 : ℕ) := by
    intro j
    rw [hmem, hseen, hg.distance_eq_succ]
    simp only [hfrontier]
  refine ⟨next, hnext, hround, ?_, ?_⟩
  · intro j
    rw [IndexSet.mem_union, hseen, hround, eq_succ_iff]
    have hmore : ((d : ℕ) : ℕ∞) ≤ (d + 1 : ℕ) := Nat.cast_le.mpr (Nat.le_succ d)
    constructor
    · intro h
      rcases h with hold | hnew
      · exact hold.trans hmore
      · exact hnew.1
    · intro h
      by_cases hold : g.distance seeds j ≤ d
      · exact Or.inl hold
      · exact Or.inr ⟨h, hold⟩
  · intro j hj
    obtain ⟨-, i, -, hij⟩ := (hmem j).mp hj
    exact hg.edgesInside i j hij

/-- **A search that begins with the round at distance `d` finds what is at distance `d` up to
`d + radius`**, each at its distance. -/
theorem Paired.mem_rounds :
    ∀ (radius : Nat) {seen frontier : IndexSet} {d : Nat} {ds : Distances},
      (∀ i, i ∈ seen ↔ g.distance seeds i ≤ d) → (∀ i, i ∈ frontier ↔ g.distance seeds i = d) →
      (∀ i ∈ frontier, i < g.size) → g.rounds? radius seen frontier d = some ds →
      ∀ i k, (i, k) ∈ ds ↔ g.distance seeds i = k ∧ d ≤ k ∧ k ≤ d + radius := by
  intro radius
  induction radius with
  | zero =>
    intro seen frontier d ds _ hfrontier _ hds i k
    rw [← Option.some.inj hds]
    simp only [List.mem_map, Prod.mk.injEq, IndexSet.mem_toList, hfrontier]
    constructor
    · intro h
      obtain ⟨j, hj, rfl, rfl⟩ := h
      exact ⟨hj, Nat.le_refl _, Nat.le_refl _⟩
    · intro h
      obtain ⟨hi, hdk, hkd⟩ := h
      obtain rfl : d = k := by omega
      exact ⟨i, hi, rfl, rfl⟩
  | succ radius ih =>
    intro seen frontier d ds hseen hfrontier hinside hds i k
    by_cases hempty : frontier.isEmpty = true
    · -- nothing is at distance `d`, so that nothing is further away
      rw [rounds?, if_pos hempty] at hds
      rw [← Option.some.inj hds]
      refine ⟨fun h => absurd h List.not_mem_nil, ?_⟩
      intro h
      obtain ⟨hi, hdk, -⟩ := h
      have hmore : g.distance seeds i = (d + (k - d) : ℕ) := by
        rw [hi, Nat.add_sub_of_le hdk]
      obtain ⟨j, hj⟩ := hg.exists_at_distance (k - d) hmore
      exact absurd ((hfrontier j).mpr hj) (IndexSet.not_mem_of_isEmpty hempty j)
    · obtain ⟨next, hnext, hround, hseen', hinside'⟩ :=
        hg.exists_next_round hseen hfrontier hinside
      rw [rounds?, if_neg hempty, hnext] at hds
      change (g.rounds? radius (seen.union next) next (d + 1) >>= fun later =>
        some (frontier.toList.map (·, d) ++ later)) = some ds at hds
      obtain ⟨later, hlater, hall⟩ := Option.bind_eq_some_iff.mp hds
      rw [← Option.some.inj hall, List.mem_append, ih hseen' hround hinside' hlater]
      simp only [List.mem_map, Prod.mk.injEq, IndexSet.mem_toList, hfrontier]
      constructor
      · intro h
        rcases h with ⟨j, hj, rfl, rfl⟩ | ⟨hi, hdk, hkd⟩
        · exact ⟨hj, Nat.le_refl _, by omega⟩
        · exact ⟨hi, by omega, by omega⟩
      · intro h
        obtain ⟨hi, hdk, hkd⟩ := h
        by_cases heq : d = k
        · exact Or.inl ⟨i, by rw [heq]; exact hi, rfl, heq⟩
        · exact Or.inr ⟨hi, by omega, by omega⟩

/-- The search finds what is within the radius, each declaration at its distance. -/
theorem Paired.mem_reach {radius : Nat} {ds : Distances} (hs : ∀ i ∈ seeds, i < g.size)
    (hds : g.reach? seeds radius = some ds) (i k : Nat) :
    (i, k) ∈ ds ↔ g.distance seeds i = k ∧ k ≤ radius := by
  unfold reach? at hds
  obtain ⟨rounds, hrounds, rfl⟩ := Option.map_eq_some_iff.mp hds
  rw [List.mem_mergeSort, hg.mem_rounds radius (fun i => distance_le_zero.symm)
    (fun i => mem_iff_distance_eq_zero) hs hrounds]
  simp only [Nat.zero_le, true_and, Nat.zero_add]

end Distance

/-! ## Requests and selections -/

section Select

variable {g : Graph} {r : Request} {s : Selection}

/-- A selection is made of what the search reaches and its closure. -/
theorem selectFrom?_eq_some {seeds : IndexSet} (h : g.selectFrom? seeds r = some s) :
    ∃ ds included, g.reach? seeds r.reach = some ds ∧ g.closure? ds.reached = some included ∧
      s = {
        seeds
        fullDetail := ds.within r.fullRadius
        context := ds.reached
        included
        distances := ds
        fullRadius := r.fullRadius
        contextRadius := r.reach } := by
  unfold selectFrom? at h
  obtain ⟨ds, hds, h⟩ := Option.bind_eq_some_iff.mp h
  obtain ⟨included, hincluded, h⟩ := Option.bind_eq_some_iff.mp h
  exact ⟨ds, included, hds, hincluded, (Option.some.inj h).symm⟩

/-- A request is answered from the declarations that its tokens stand for, if there are any. -/
theorem select_eq_ok : g.select r = .ok s ↔
    (g.matchingAny r.seeds).isEmpty = false ∧
      g.selectFrom? (g.matchingAny r.seeds) r = some s := by
  unfold select resolve
  cases hempty : (g.matchingAny r.seeds).isEmpty with
  | true => simp [bind, Except.bind, hempty]
  | false =>
    cases hs : g.selectFrom? (g.matchingAny r.seeds) r with
    | none => simp [bind, Except.bind, hempty, hs, throw, throwThe, MonadExceptOf.throw]
    | some s' => simp [bind, Except.bind, hempty, hs, pure, Except.pure]

/-- Where the rounds find the declarations in the order of their indexes, a request can be answered
round by round. -/
theorem select_of_rounds {seeds included : IndexSet} {ds : Distances}
    (hseeds : g.matchingAny r.seeds = seeds) (hsome : seeds.isEmpty = false)
    (hrounds : g.rounds? r.reach seeds seeds 0 = some ds)
    (hsorted : ds.Pairwise fun a b => a.1 ≤ b.1)
    (hincluded : g.closure? ds.reached = some included) :
    g.select r = .ok {
      seeds
      fullDetail := ds.within r.fullRadius
      context := ds.reached
      included
      distances := ds
      fullRadius := r.fullRadius
      contextRadius := r.reach } := by
  have hreach : g.reach? seeds r.reach = some ds := by
    unfold reach?
    rw [hrounds, Option.map_some, List.mergeSort_of_pairwise (by simpa using hsorted)]
  rw [select_eq_ok, hseeds]
  refine ⟨hsome, ?_⟩
  unfold selectFrom?
  simp only [bind, hreach, hincluded, Option.bind_some]
  rfl

variable {depth : Nat → Nat}

/-- A request fails exactly if its tokens stand for nothing, and the failure shows the tokens. -/
theorem Owned.select_eq_error (hg : g.Owned depth) (he : g.EdgesInside) {e : Failure} :
    g.select r = .error e ↔ (g.matchingAny r.seeds).isEmpty = true ∧ e = .seeds r.seeds := by
  rcases hg.select_cases he r with ⟨hempty, hselect⟩ | ⟨s, hselect, -, -⟩
  · rw [hselect, hempty, Except.error.injEq]
    simp only [true_and]
    exact eq_comm
  · rw [hselect, (select_eq_ok.mp hselect).1]
    simp

end Select

end Graph

/-- A selection holds what is within its radii of its seeds, each at its distance. -/
structure Selection.Exact (s : Selection) (g : Graph) (r : Request) : Prop where
  coherent : s.Coherent g
  seeds : s.seeds = g.matchingAny r.seeds
  contextRadius : s.contextRadius = r.reach
  mem_distances : ∀ i d, (i, d) ∈ s.distances ↔ g.distance s.seeds i = d ∧ d ≤ r.reach
  mem_full : ∀ i, i ∈ s.fullDetail ↔ g.distance s.seeds i ≤ r.fullRadius
  mem_context : ∀ i, i ∈ s.context ↔ g.distance s.seeds i ≤ r.reach

namespace Graph

variable {g : Graph} {r : Request} {s : Selection} {depth : Nat → Nat}

/-- **What a request selects is exact.** -/
theorem Owned.exact_of_select (hg : g.Owned depth) (hp : g.Paired) (h : g.select r = .ok s) :
    s.Exact g r := by
  have hcoherent := hg.coherent_of_select hp.edgesInside h
  obtain ⟨ds, included, hds, -, rfl⟩ := selectFrom?_eq_some (select_eq_ok.mp h).2
  have hmem := hp.mem_reach (fun i hi => matchingAny_lt hi) hds
  refine ⟨hcoherent, rfl, rfl, hmem, ?_, ?_⟩
  · intro i
    show i ∈ ds.within r.fullRadius ↔ g.distance (g.matchingAny r.seeds) i ≤ r.fullRadius
    rw [Distances.mem_within, ENat.le_natCast_iff]
    -- the search goes at least as far as the full texts
    have hreach : r.fullRadius ≤ r.reach := Nat.le_max_right _ _
    constructor
    · intro hi
      obtain ⟨d, hd, hle⟩ := hi
      exact ⟨d, ((hmem i d).mp hd).1, hle⟩
    · intro hi
      obtain ⟨d, hd, hle⟩ := hi
      exact ⟨d, (hmem i d).mpr ⟨hd, Nat.le_trans hle hreach⟩, hle⟩
  · intro i
    show i ∈ ds.reached ↔ g.distance (g.matchingAny r.seeds) i ≤ r.reach
    rw [Distances.mem_reached, ENat.le_natCast_iff]
    simp only [hmem]

end Graph

theorem Selection.Exact.full_eq_seeds {s : Selection} {g : Graph} {r : Request} (h : s.Exact g r)
    (hr : r.fullRadius = 0) : s.fullDetail = s.seeds := by
  refine IndexSet.ext_mem fun i => ?_
  rw [h.mem_full, hr, Graph.distance_le_zero]

/-- Declarations with all that is above them are the least set around them that holds the owner of
each of its members. -/
theorem Graph.isLeast_above {g : Graph} {start included : IndexSet}
    (h : ∀ a, a ∈ included ↔ ∃ i ∈ start, Relation.ReflTransGen g.Owner i a) :
    IsLeast {t : Set Nat | (∀ i ∈ start, i ∈ t) ∧ ∀ i p, g.Owner i p → i ∈ t → p ∈ t}
      {i | i ∈ included} := by
  refine ⟨⟨fun i hi => (h i).mpr ⟨i, hi, .refl⟩, ?_⟩, ?_⟩
  · intro i p hip hi
    obtain ⟨c, hc, hci⟩ := (h i).mp hi
    exact (h p).mpr ⟨c, hc, hci.tail hip⟩
  · intro t ht a ha
    obtain ⟨i, hi, hia⟩ := (h a).mp ha
    induction hia with
    | refl => exact ht.1 i hi
    | tail hib hba ih => exact ht.2 _ _ hba (ih ((h _).mpr ⟨i, hi, hib⟩))

namespace Graph

theorem build_owned (source : List Char) (tree : Node) :
    ∃ depth, (Graph.build source tree).Owned depth :=
  ⟨_, Draft.freeze_owned (Draft.built_lawful source tree) source⟩

theorem build_paired (source : List Char) (tree : Node) : (Graph.build source tree).Paired :=
  Draft.freeze_paired (Draft.built_lawful source tree) source

/-- **A selection is two balls around its seeds with all that is around them.** A request fails only
if its tokens stand for nothing. Else its selection lies in the graph, each of its sets in the next:
the seeds, what is within the full radius of them, what is within the radius of the outline, which
is never the smaller one, and the least set around that which holds the owner of each of its
members. -/
theorem build_select (source : List Char) (tree : Node) (r : Request) :
    let g := Graph.build source tree
    ((g.matchingAny r.seeds).isEmpty = true ∧ g.select r = .error (.seeds r.seeds)) ∨
    ∃ s, g.select r = .ok s ∧ g.resolve r.seeds = .ok s.seeds ∧
      (∀ i ∈ s.seeds, i ∈ s.fullDetail) ∧ (∀ i ∈ s.fullDetail, i ∈ s.context) ∧
      (∀ i ∈ s.context, i ∈ s.included) ∧ (∀ i ∈ s.included, i < g.size) ∧
      s.contextRadius = max r.contextRadius r.fullRadius ∧
      (∀ i, i ∈ s.fullDetail ↔ g.distance s.seeds i ≤ r.fullRadius) ∧
      (r.fullRadius = 0 → s.fullDetail = s.seeds) ∧
      (∀ i, i ∈ s.context ↔ g.distance s.seeds i ≤ s.contextRadius) ∧
      IsLeast {t : Set Nat | (∀ i ∈ s.context, i ∈ t) ∧ ∀ i p, g.Owner i p → i ∈ t → p ∈ t}
        {i | i ∈ s.included} := by
  intro g
  obtain ⟨depth, hg⟩ := build_owned source tree
  have hp := build_paired source tree
  refine (hg.select_cases hp.edgesInside r).imp_right ?_
  intro h
  obtain ⟨s, hselect, hresolve, hs⟩ := h
  have hexact := hg.exact_of_select hp hselect
  refine ⟨s, hselect, hresolve, hs.seeds_full, hs.full_context, fun i hi => hs.context_included hi,
    fun i hi => hs.included_lt hg hi, hexact.contextRadius, hexact.mem_full, hexact.full_eq_seeds,
    ?_, isLeast_above hs.included_iff⟩
  rw [hexact.contextRadius]
  exact hexact.mem_context

/-- A function, and another one that calls it from inside a third. -/
def innerCall : Source where
  path := "inner.js"
  dialect := .javascript
  text := "function g()\x7b\x7dfunction h()\x7bfunction f()\x7bg()\x7d\x7d"
  tree :=
    .mk ⟨.other, 0, 45, true, false, false, []⟩ [
      .mk ⟨.functionDeclaration, 0, 14, true, false, false, []⟩ [
        .mk ⟨.identifier, 9, 10, true, false, false, [.name]⟩ []],
      .mk ⟨.functionDeclaration, 14, 45, true, false, false, []⟩ [
        .mk ⟨.identifier, 23, 24, true, false, false, [.name]⟩ [],
        .mk ⟨.other, 26, 45, true, false, false, []⟩ [
          .mk ⟨.functionDeclaration, 27, 44, true, false, false, []⟩ [
            .mk ⟨.identifier, 36, 37, true, false, false, [.name]⟩ [],
            .mk ⟨.other, 39, 44, true, false, false, []⟩ [
              .mk ⟨.callExpression, 40, 43, true, false, false, []⟩ [
                .mk ⟨.identifier, 40, 41, true, false, false, [.function]⟩ [],
                .mk ⟨.arguments, 41, 43, true, false, false, [.arguments]⟩ []]]]]]]

/-- The graph of `innerCall`. -/
def innerCallGraph : Graph where
  nodes := #[
    { id := "function@1:0-1:14", name := "g", kind := .function, params := ""
      span := ⟨1, 0, 1, 14⟩, source := "function g()\x7b\x7d"
      printed := some "function g()\x7b\x7d", owner := none, children := []
      calls := ∅, calledBy := .ofList [2] },
    { id := "function@1:14-1:45", name := "h", kind := .function, params := ""
      span := ⟨1, 14, 1, 45⟩, source := "function h()\x7bfunction f()\x7bg()\x7d\x7d"
      printed := some "function h()\x7bfunction f()\x7bg()\x7d\x7d", owner := none
      children := [2], calls := ∅, calledBy := ∅ },
    { id := "function@1:27-1:44", name := "f", kind := .function, params := ""
      span := ⟨1, 27, 1, 44⟩, source := "function f()\x7bg()\x7d"
      printed := some "function f()\x7bg()\x7d", owner := some 1, children := []
      calls := .ofList [0], calledBy := ∅ }]

theorem build_innerCall :
    Graph.build innerCall.text.toList innerCall.tree = innerCallGraph := by
  -- the functions are recorded in source order
  unfold Graph.build Draft.freeze
  rw [Draft.ordered_of_pairwise (by decide +kernel)]
  decide +kernel

/-- What is selected around the called function, with an outline of radius 1: its caller is reached,
and what is around the caller is included. -/
def aroundCalled (fullRadius : Nat) : Selection where
  seeds := .ofList [0]
  fullDetail := Distances.within [(0, 0), (2, 1)] fullRadius
  context := .ofList [0, 2]
  included := .ofList [0, 1, 2]
  distances := [(0, 0), (2, 1)]
  fullRadius
  contextRadius := 1

theorem innerCallGraph_select {f c : Nat} (h : max c f = 1) :
    innerCallGraph.select ⟨["g"], f, c⟩ = .ok (aroundCalled f) := by
  have hreach : (Request.mk ["g"] f c).reach = 1 := h
  have hrounds : innerCallGraph.rounds? (Request.mk ["g"] f c).reach (.ofList [0]) (.ofList [0]) 0
      = some [(0, 0), (2, 1)] := by
    rw [hreach]
    decide +kernel
  have hseeds : innerCallGraph.matchingAny ["g"] = .ofList [0] := by decide +kernel
  have hincluded : innerCallGraph.closure? (Distances.reached [(0, 0), (2, 1)])
      = some (.ofList [0, 1, 2]) := by decide +kernel
  rw [select_of_rounds hseeds rfl hrounds (by decide) hincluded, hreach]
  rfl

/-- The caller is one step away from the function that it calls. What is around the caller is not
that near, but included. -/
theorem build_select_innerCall :
    ∃ s, (Graph.build innerCall.text.toList innerCall.tree).select ⟨["g"], 0, 1⟩ = .ok s ∧
      s.seeds = .ofList [0] ∧ s.fullDetail = .ofList [0] ∧ s.context = .ofList [0, 2] ∧
      s.included = .ofList [0, 1, 2] ∧
      innerCallGraph.distance s.seeds 2 ≤ (1 : ℕ) ∧ ¬ innerCallGraph.distance s.seeds 1 ≤ (1 : ℕ) ∧
      IsLeast {t : Set Nat | (∀ i ∈ s.context, i ∈ t) ∧
        ∀ i p, innerCallGraph.Owner i p → i ∈ t → p ∈ t} {i | i ∈ s.included} := by
  have hselect : innerCallGraph.select ⟨["g"], 0, 1⟩ = .ok (aroundCalled 0) :=
    innerCallGraph_select rfl
  rw [← build_innerCall] at hselect ⊢
  rcases build_select innerCall.text.toList innerCall.tree ⟨["g"], 0, 1⟩ with
    ⟨-, herror⟩ | ⟨s, hs, -, -, -, -, -, -, -, -, hcontext, hleast⟩
  · rw [herror] at hselect
    exact absurd hselect (by simp)
  · obtain rfl := Except.ok.inj (hs.symm.trans hselect)
    exact ⟨_, hs, rfl, rfl, rfl, rfl, (hcontext 2).mp (by decide),
      fun hnear => absurd ((hcontext 1).mpr hnear) (by decide), hleast⟩

end Graph

end CallVicinity
