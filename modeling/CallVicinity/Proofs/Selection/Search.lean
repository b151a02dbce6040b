import CallVicinity.Proofs.Selection.Distance

/-!
# The search finds shortest walks

`Graph.Steps` says directly what it is to get from one declaration to another in a number of steps.
This file shows that the map which `Graph.reach?` returns has exactly the declarations in it that
some seed reaches within the radius, each with the least number of steps, and that a search with one
queue comes to the same map (`Graph.build_reach_shortest`).

The search with a queue looks at what was found first come, first served, and writes a distance down
once and for all when it finds something. That this is the least number of steps needs

* `Search.Sound.ordered`: what waits in the queue waits in the order of its distances, and
* `Search.Sound.spread`: nothing that was found is more than one step further away than anything
  that still waits,

so that a neighbour which was found before is not further away than it would be found now. The
search stops where a distance is equal to the radius, and that is enough: no distance is above the
radius (`Search.Sound.within`), so one that is not equal to it is below. Each look takes one
declaration out of the queue for good, so that the search ends after as many looks as it finds
declarations.
-/

namespace CallVicinity

/-- The declarations of a round. -/
theorem Distances.map_fst_round (is : List Nat) (d : Nat) : (is.map (·, d)).map (·.1) = is := by
  rw [List.map_map]
  exact List.map_id is

namespace Graph

/-- `g.Steps i n j`: there is a walk of `n` steps from `i` to `j`, each along a call edge in either
direction. -/
inductive Steps (g : Graph) (i : Nat) : Nat → Nat → Prop
  | here : Steps g i 0 i
  | next {n j k : Nat} : Steps g i n j → g.Adjacent j k → Steps g i (n + 1) k

section Rounds

variable {g : Graph} {seeds : IndexSet}

theorem Paired.distance_le_iff_steps (hg : g.Paired) {i k : Nat} :
    g.distance seeds i ≤ k ↔ ∃ s ∈ seeds, ∃ n ≤ k, g.Steps s n i := by
  induction k generalizing i with
  | zero =>
    rw [distance_le_zero]
    constructor
    · intro hi
      exact ⟨i, hi, 0, Nat.le_refl 0, .here⟩
    · rintro ⟨s, hs, n, hn, hsteps⟩
      obtain rfl : n = 0 := Nat.le_zero.mp hn
      cases hsteps
      exact hs
  | succ k ih =>
    rw [hg.distance_le_succ, ih]
    simp only [ih]
    constructor
    · rintro (⟨s, hs, n, hn, hsteps⟩ | ⟨j, ⟨s, hs, n, hn, hsteps⟩, hji⟩)
      · exact ⟨s, hs, n, Nat.le_succ_of_le hn, hsteps⟩
      · exact ⟨s, hs, n + 1, Nat.succ_le_succ hn, hsteps.next hji⟩
    · rintro ⟨s, hs, n, hn, hsteps⟩
      cases hsteps with
      | here => exact Or.inl ⟨_, hs, 0, Nat.zero_le k, .here⟩
      | @next n j _ hsteps hji =>
        exact Or.inr ⟨j, ⟨s, hs, n, Nat.le_of_succ_le_succ hn, hsteps⟩, hji⟩

/-- The distance is the least number of steps. -/
theorem Paired.distance_eq_iff (hg : g.Paired) {i k : Nat} :
    g.distance seeds i = k ↔ IsLeast {n | ∃ s ∈ seeds, g.Steps s n i} k := by
  constructor
  · intro h
    have hleast : k ∈ lowerBounds {n | ∃ s ∈ seeds, g.Steps s n i} := by
      rintro n ⟨s, hs, hsteps⟩
      have hle : g.distance seeds i ≤ n :=
        hg.distance_le_iff_steps.mpr ⟨s, hs, n, Nat.le_refl n, hsteps⟩
      rw [h] at hle
      exact Nat.cast_le.mp hle
    obtain ⟨s, hs, n, hn, hsteps⟩ := hg.distance_le_iff_steps.mp (le_of_eq h)
    obtain rfl : n = k := Nat.le_antisymm hn (hleast ⟨s, hs, hsteps⟩)
    exact ⟨⟨s, hs, hsteps⟩, hleast⟩
  · rintro ⟨⟨s, hs, hsteps⟩, hleast⟩
    refine le_antisymm (hg.distance_le_iff_steps.mpr ⟨s, hs, k, Nat.le_refl k, hsteps⟩) ?_
    cases hdistance : g.distance seeds i with
    | top => exact le_top
    | coe m =>
      obtain ⟨s, hs, n, hn, hsteps⟩ := hg.distance_le_iff_steps.mp (le_of_eq hdistance)
      exact Nat.cast_le.mpr (Nat.le_trans (hleast ⟨s, hs, hsteps⟩) hn)

/-- No two rounds have a declaration in common. -/
theorem Paired.rounds_nodup (hg : g.Paired) :
    ∀ (radius : Nat) {seen frontier : IndexSet} {d : Nat} {ds : Distances},
      (∀ i, i ∈ seen ↔ g.distance seeds i ≤ d) → (∀ i, i ∈ frontier ↔ g.distance seeds i = d) →
      (∀ i ∈ frontier, i < g.size) → g.rounds? radius seen frontier d = some ds →
      (ds.map (·.1)).Nodup := by
  intro radius
  induction radius with
  | zero =>
    intro seen frontier d ds _ _ _ hds
    rw [← Option.some.inj hds, Distances.map_fst_round]
    exact frontier.toList_nodup
  | succ radius ih =>
    intro seen frontier d ds hseen hfrontier hinside hds
    by_cases hempty : frontier.isEmpty = true
    · rw [rounds?, if_pos hempty] at hds
      rw [← Option.some.inj hds]
      exact List.nodup_nil
    · obtain ⟨next, hnext, hfrontier', hseen', hinside'⟩ :=
        hg.exists_next_round hseen hfrontier hinside
      rw [rounds?, if_neg hempty, hnext] at hds
      change (g.rounds? radius (seen.union next) next (d + 1) >>= fun later =>
        some (frontier.toList.map (·, d) ++ later)) = some ds at hds
      obtain ⟨later, hlater, hall⟩ := Option.bind_eq_some_iff.mp hds
      rw [← Option.some.inj hall, List.map_append, Distances.map_fst_round]
      refine List.nodup_append.mpr ⟨frontier.toList_nodup, ih hseen' hfrontier' hinside' hlater, ?_⟩
      rintro i hi _ hj rfl
      -- what comes later is further away
      obtain ⟨⟨i, k⟩, hk, rfl⟩ := List.mem_map.mp hj
      obtain ⟨hik, hlt, -⟩ := (hg.mem_rounds radius hseen' hfrontier' hinside' hlater i k).mp hk
      have hid : g.distance seeds i = d := (hfrontier i).mp hi
      have hkd : d = k := Nat.cast_inj.mp (hid.symm.trans hik)
      omega

/-- The map of a search is in ascending order, and has no declaration in it twice. -/
theorem Paired.reach_ascending (hg : g.Paired) {radius : Nat} {ds : Distances}
    (hs : ∀ i ∈ seeds, i < g.size) (hds : g.reach? seeds radius = some ds) :
    ds.Pairwise fun x y => x.1 < y.1 := by
  unfold reach? at hds
  obtain ⟨rounds, hrounds, rfl⟩ := Option.map_eq_some_iff.mp hds
  have hnodup := hg.rounds_nodup radius (fun i => distance_le_zero.symm)
    (fun i => mem_iff_distance_eq_zero) hs hrounds
  have hperm := List.mergeSort_perm rounds fun x y => decide (x.1 ≤ y.1)
  have hdistinct := List.pairwise_map.mp ((hperm.map (·.1)).nodup_iff.mpr hnodup)
  have hsorted : (rounds.mergeSort fun x y => decide (x.1 ≤ y.1)).Pairwise
      fun x y => decide (x.1 ≤ y.1) = true := by
    refine List.pairwise_mergeSort ?_ ?_ rounds
    · intro x y z
      simpa using Nat.le_trans
    · intro x y
      simpa using Nat.le_total x.1 y.1
  refine (hsorted.and hdistinct).imp ?_
  rintro x y ⟨hle, hne⟩
  exact Nat.lt_of_le_of_ne (of_decide_eq_true hle) hne

end Rounds

end Graph

/-! ## One queue -/

/-- A search with one queue. -/
structure Search where
  /-- What was found, with its distance, in the order in which it was found. -/
  found : Distances
  /-- What was found and not looked at yet, in the order in which it will be. -/
  queue : List Nat

namespace Search

/-- Before the first look the seeds are found. -/
def start (seeds : IndexSet) : Search :=
  ⟨seeds.toList.map (·, 0), seeds.toList⟩

/-- Finds a declaration at a distance, unless it was found before. -/
def note (distance : Nat) (s : Search) (i : Nat) : Search :=
  if i ∈ s.found.map (·.1) then s else ⟨s.found ++ [(i, distance)], s.queue ++ [i]⟩

/-- Looks at a declaration that was taken from the queue, which finds its neighbours, unless it is
as far away as the radius; `none` where it was not found before or is past the end. -/
def look? (g : Graph) (radius i : Nat) (s : Search) : Option Search := do
  let distance ← s.found.lookup i
  if distance = radius then return s
  else return (← g.neighbors? i).toList.foldl (note (distance + 1)) s

/-- `Ends g radius s n found`: from `s` the queue is empty after `n` looks, with `found` found. -/
inductive Ends (g : Graph) (radius : Nat) : Search → Nat → Distances → Prop
  | empty {found : Distances} : Ends g radius ⟨found, []⟩ 0 found
  | look {found found' : Distances} {i n : Nat} {queue : List Nat} {s : Search} :
      look? g radius i ⟨found, queue⟩ = some s → Ends g radius s n found' →
      Ends g radius ⟨found, i :: queue⟩ (n + 1) found'

/-- Noting neighbours one after the other finds those that were not found before. -/
theorem foldl_note (distance : Nat) :
    ∀ {near : List Nat} (s : Search), near.Nodup →
      let fresh := near.filter fun j => decide (j ∉ s.found.map (·.1))
      near.foldl (note distance) s = ⟨s.found ++ fresh.map (·, distance), s.queue ++ fresh⟩ := by
  intro near
  induction near with
  | nil =>
    intro s _
    simp
  | cons j near ih =>
    intro s hnodup
    obtain ⟨hj, hnodup⟩ := List.nodup_cons.mp hnodup
    dsimp only
    rw [List.foldl_cons, ih _ hnodup]
    by_cases hold : j ∈ s.found.map (·.1)
    · have hnote : note distance s j = s := if_pos hold
      rw [hnote, List.filter_cons_of_neg (by simpa using hold)]
    · have hnote : note distance s j = ⟨s.found ++ [(j, distance)], s.queue ++ [j]⟩ := if_neg hold
      -- what is noted later is not `j` again
      have hrest : (near.filter fun k => decide (k ∉ (s.found ++ [(j, distance)]).map (·.1)))
          = near.filter fun k => decide (k ∉ s.found.map (·.1)) := by
        refine List.filter_congr fun k hk => ?_
        have hne : k ≠ j := fun h => hj (h ▸ hk)
        simp [hne]
      rw [hnote, hrest, List.filter_cons_of_pos (by simpa using hold)]
      simp

/-! ## What a search knows -/

/-- A search found `looked` and looked at it, and found `waiting` and has it in its queue. -/
structure Sound (g : Graph) (seeds : IndexSet) (radius : Nat) (looked waiting : Distances) :
    Prop where
  nodup : ((looked ++ waiting).map (·.1)).Nodup
  inside : ∀ x ∈ looked ++ waiting, x.1 < g.size
  walk : ∀ x ∈ looked ++ waiting, ∃ s ∈ seeds, g.Steps s x.2 x.1
  within : ∀ x ∈ looked ++ waiting, x.2 ≤ radius
  seeds : ∀ s ∈ seeds, (s, 0) ∈ looked ++ waiting
  ordered : waiting.Pairwise fun x y => x.2 ≤ y.2
  spread : ∀ x ∈ looked ++ waiting, ∀ y ∈ waiting, x.2 ≤ y.2 + 1
  closed : ∀ x ∈ looked, x.2 < radius → ∀ j, g.Adjacent x.1 j →
    ∃ k ≤ x.2 + 1, (j, k) ∈ looked ++ waiting

section Sound

variable {g : Graph} {seeds : IndexSet} {radius : Nat} {looked waiting : Distances}

theorem sound_start (hs : ∀ i ∈ seeds, i < g.size) :
    Sound g seeds radius [] (seeds.toList.map (·, 0)) := by
  have hzero : ∀ x ∈ seeds.toList.map (·, 0), x.1 ∈ seeds ∧ x.2 = 0 := by
    intro x hx
    obtain ⟨i, hi, rfl⟩ := List.mem_map.mp hx
    exact ⟨hi, rfl⟩
  constructor
  case nodup =>
    rw [List.nil_append, Distances.map_fst_round]
    exact seeds.toList_nodup
  case inside => exact fun x hx => hs _ (hzero x hx).1
  case walk =>
    intro x hx
    obtain ⟨hseed, hx0⟩ := hzero x hx
    rw [hx0]
    exact ⟨x.1, hseed, .here⟩
  case within =>
    intro x hx
    rw [(hzero x hx).2]
    exact Nat.zero_le radius
  case seeds => exact fun s hs => List.mem_map.mpr ⟨s, hs, rfl⟩
  case ordered =>
    refine List.pairwise_of_forall_mem_list ?_
    intro x hx y hy
    rw [(hzero x hx).2]
    exact Nat.zero_le y.2
  case spread =>
    intro x hx y hy
    rw [(hzero x hx).2]
    exact Nat.zero_le _
  case closed => exact fun x hx => absurd hx List.not_mem_nil

/-- A declaration at the radius is looked at without a look around. -/
theorem Sound.pass {i : Nat} (h : Sound g seeds radius looked ((i, radius) :: waiting)) :
    Sound g seeds radius (looked ++ [(i, radius)]) waiting := by
  have hall : looked ++ [(i, radius)] ++ waiting = looked ++ (i, radius) :: waiting := by simp
  constructor
  case nodup => exact hall ▸ h.nodup
  case inside => exact hall ▸ h.inside
  case walk => exact hall ▸ h.walk
  case within => exact hall ▸ h.within
  case seeds => exact hall ▸ h.seeds
  case ordered => exact h.ordered.of_cons
  case spread => exact hall ▸ fun x hx y hy => h.spread x hx y (List.mem_cons_of_mem _ hy)
  case closed =>
    rw [hall]
    intro x hx hlt
    rcases List.mem_append.mp hx with hx | hx
    · exact h.closed x hx hlt
    · obtain rfl : x = (i, radius) := List.mem_singleton.mp hx
      exact absurd hlt (Nat.lt_irrefl radius)

/-- A look around a declaration below the radius finds its neighbours one step further away. -/
theorem Sound.expand (he : g.EdgesInside) {i d : Nat} {fresh : List Nat}
    (h : Sound g seeds radius looked ((i, d) :: waiting)) (hd : d ≠ radius)
    (hfresh : fresh.Nodup) (hnew : ∀ j, j ∈ fresh ↔
      g.Adjacent i j ∧ j ∉ (looked ++ (i, d) :: waiting).map (·.1)) :
    Sound g seeds radius (looked ++ [(i, d)]) (waiting ++ fresh.map (·, d + 1)) := by
  have hall : looked ++ [(i, d)] ++ (waiting ++ fresh.map (·, d + 1))
      = (looked ++ (i, d) :: waiting) ++ fresh.map (·, d + 1) := by simp
  have hi : (i, d) ∈ looked ++ (i, d) :: waiting := by simp
  have hlater : ∀ x ∈ fresh.map (·, d + 1), g.Adjacent i x.1 ∧ x.2 = d + 1 := by
    intro x hx
    obtain ⟨j, hj, rfl⟩ := List.mem_map.mp hx
    exact ⟨((hnew j).mp hj).1, rfl⟩
  -- nothing that was found is more than one step further away than what is looked at
  have hnear : ∀ x ∈ looked ++ (i, d) :: waiting, x.2 ≤ d + 1 :=
    fun x hx => h.spread x hx (i, d) List.mem_cons_self
  have hbehind : ∀ y ∈ waiting, d ≤ y.2 := fun y hy => List.rel_of_pairwise_cons h.ordered hy
  constructor
  case nodup =>
    rw [hall, List.map_append, Distances.map_fst_round]
    refine List.nodup_append.mpr ⟨h.nodup, hfresh, ?_⟩
    rintro j hj _ hk rfl
    exact ((hnew j).mp hk).2 hj
  case inside =>
    rw [hall]
    intro x hx
    rcases List.mem_append.mp hx with hx | hx
    · exact h.inside x hx
    · exact he i x.1 (hlater x hx).1
  case walk =>
    rw [hall]
    intro x hx
    rcases List.mem_append.mp hx with hx | hx
    · exact h.walk x hx
    · obtain ⟨s, hs, hsteps⟩ := h.walk (i, d) hi
      rw [(hlater x hx).2]
      exact ⟨s, hs, hsteps.next (hlater x hx).1⟩
  case within =>
    rw [hall]
    intro x hx
    rcases List.mem_append.mp hx with hx | hx
    · exact h.within x hx
    · have hle : d ≤ radius := h.within (i, d) hi
      rw [(hlater x hx).2]
      omega
  case seeds =>
    rw [hall]
    exact fun s hs => List.mem_append_left _ (h.seeds s hs)
  case ordered =>
    refine List.pairwise_append.mpr ⟨h.ordered.of_cons, ?_, ?_⟩
    · refine List.pairwise_of_forall_mem_list ?_
      intro x hx y hy
      rw [(hlater x hx).2, (hlater y hy).2]
    · intro x hx y hy
      rw [(hlater y hy).2]
      exact hnear x (List.mem_append_right _ (List.mem_cons_of_mem _ hx))
  case spread =>
    rw [hall]
    intro x hx y hy
    have hyd : d ≤ y.2 := by
      rcases List.mem_append.mp hy with hy | hy
      · exact hbehind y hy
      · rw [(hlater y hy).2]
        omega
    have hxd : x.2 ≤ d + 1 := by
      rcases List.mem_append.mp hx with hx | hx
      · exact hnear x hx
      · rw [(hlater x hx).2]
    omega
  case closed =>
    rw [hall]
    intro x hx hlt j hj
    rcases List.mem_append.mp hx with hx | hx
    · obtain ⟨k, hk, hmem⟩ := h.closed x hx hlt j hj
      exact ⟨k, hk, List.mem_append_left _ hmem⟩
    · obtain rfl : x = (i, d) := List.mem_singleton.mp hx
      by_cases hold : j ∈ (looked ++ (i, d) :: waiting).map (·.1)
      · obtain ⟨⟨j, k⟩, hmem, rfl⟩ := List.mem_map.mp hold
        exact ⟨k, hnear (j, k) hmem, List.mem_append_left _ hmem⟩
      · refine ⟨d + 1, Nat.le_refl _, List.mem_append_right _ ?_⟩
        exact List.mem_map.mpr ⟨j, (hnew j).mpr ⟨hj, hold⟩, rfl⟩

/-- **A look at what comes first keeps what a search knows.** -/
theorem Sound.exists_look (he : g.EdgesInside) {i d : Nat}
    (h : Sound g seeds radius looked ((i, d) :: waiting)) :
    ∃ waiting', Sound g seeds radius (looked ++ [(i, d)]) waiting' ∧
      look? g radius i ⟨looked ++ (i, d) :: waiting, waiting.map (·.1)⟩
        = some ⟨looked ++ [(i, d)] ++ waiting', waiting'.map (·.1)⟩ := by
  have hlookup : (looked ++ (i, d) :: waiting).lookup i = some d := by
    refine List.lookup_eq_some_iff.mpr ⟨looked, waiting, rfl, ?_⟩
    intro x hx
    have hdisjoint := h.nodup
    rw [List.map_append, List.nodup_append] at hdisjoint
    have hne : x.1 ≠ i :=
      hdisjoint.2.2 x.1 (List.mem_map_of_mem hx) i List.mem_cons_self
    simpa using hne.symm
  unfold look?
  rw [hlookup]
  by_cases hd : d = radius
  · subst hd
    exact ⟨waiting, h.pass, by simp⟩
  · obtain ⟨near, hnear, hmem⟩ := Graph.exists_neighbors (h.inside (i, d) (by simp))
    have hfold := foldl_note (d + 1) ⟨looked ++ (i, d) :: waiting, waiting.map (·.1)⟩
      near.toList_nodup
    have hfresh := near.toList_nodup.filter fun j =>
      decide (j ∉ (looked ++ (i, d) :: waiting).map (·.1))
    refine ⟨_, h.expand he hd hfresh ?_, ?_⟩
    · intro j
      rw [List.mem_filter, decide_eq_true_eq, IndexSet.mem_toList, hmem]
    · dsimp only at hfold
      simp only [Option.bind_eq_bind, Option.bind_some, if_neg hd, hnear, hfold, List.map_append,
        Distances.map_fst_round]
      simp

theorem Sound.length_le (h : Sound g seeds radius looked waiting) :
    looked.length + waiting.length ≤ g.size := by
  have hrange : (looked ++ waiting).map (·.1) ⊆ List.range g.size := by
    intro i hi
    obtain ⟨x, hx, rfl⟩ := List.mem_map.mp hi
    exact List.mem_range.mpr (h.inside x hx)
  have hle := (h.nodup.subperm hrange).length_le
  rwa [List.length_map, List.length_range, List.length_append] at hle

/-- **A search ends**, after one look at each declaration that it finds. -/
theorem Sound.exists_ends (he : g.EdgesInside) :
    ∀ (left : Nat) {looked waiting : Distances}, Sound g seeds radius looked waiting →
      g.size ≤ looked.length + left →
      ∃ more, Sound g seeds radius (looked ++ more) [] ∧
        Ends g radius ⟨looked ++ waiting, waiting.map (·.1)⟩ more.length (looked ++ more) := by
  intro left
  induction left with
  | zero =>
    intro looked waiting h hleft
    -- all that there is was looked at
    have hle := h.length_le
    obtain rfl : waiting = [] := List.eq_nil_of_length_eq_zero (by omega)
    exact ⟨[], by simpa using h, .empty⟩
  | succ left ih =>
    intro looked waiting h hleft
    cases waiting with
    | nil => exact ⟨[], by simpa using h, .empty⟩
    | cons x waiting =>
      obtain ⟨i, d⟩ := x
      obtain ⟨waiting', h', hlook⟩ := h.exists_look he
      have hleft' : g.size ≤ (looked ++ [(i, d)]).length + left := by
        rw [List.length_append, List.length_singleton]
        omega
      obtain ⟨more, hmore, hends⟩ := ih h' hleft'
      refine ⟨(i, d) :: more, ?_, .look hlook ?_⟩
      · rw [List.append_cons looked (i, d) more]
        exact hmore
      · rw [List.append_cons looked (i, d) more]
        exact hends

/-- What a seed reaches within the radius is found, with no more steps. -/
theorem Sound.exists_of_steps (h : Sound g seeds radius looked []) {s n i : Nat} (hs : s ∈ seeds)
    (hsteps : g.Steps s n i) (hn : n ≤ radius) : ∃ k ≤ n, (i, k) ∈ looked := by
  induction hsteps with
  | here => exact ⟨0, Nat.le_refl 0, List.append_nil looked ▸ h.seeds s hs⟩
  | @next n j i _ hji ih =>
    obtain ⟨k, hk, hj⟩ := ih (Nat.le_of_succ_le hn)
    obtain ⟨k', hk', hi⟩ := h.closed (j, k) hj (by show k < radius; omega) i hji
    refine ⟨k', ?_, List.append_nil looked ▸ hi⟩
    dsimp only at hk'
    omega

/-- **What was found in the end is what is within the radius, each with the least number of
steps.** -/
theorem Sound.mem_iff (h : Sound g seeds radius looked []) {i k : Nat} :
    (i, k) ∈ looked ↔ IsLeast {n | ∃ s ∈ seeds, g.Steps s n i} k ∧ k ≤ radius := by
  have hmem : ∀ {x}, x ∈ looked → x ∈ looked ++ [] := fun hx => List.mem_append_left _ hx
  constructor
  · intro hik
    have hk : k ≤ radius := h.within (i, k) (hmem hik)
    refine ⟨⟨h.walk (i, k) (hmem hik), ?_⟩, hk⟩
    rintro n ⟨s, hs, hsteps⟩
    by_cases hn : n ≤ radius
    · obtain ⟨k', hk', hik'⟩ := h.exists_of_steps hs hsteps hn
      have heq : (i, k) = (i, k') :=
        List.inj_on_of_nodup_map h.nodup (hmem hik) (hmem hik') rfl
      rw [(Prod.mk.inj heq).2]
      exact hk'
    · omega
  · rintro ⟨⟨⟨s, hs, hsteps⟩, hleast⟩, hk⟩
    obtain ⟨k', hk', hik'⟩ := h.exists_of_steps hs hsteps hk
    have hle : k ≤ k' := hleast (h.walk (i, k') (hmem hik'))
    obtain rfl : k' = k := Nat.le_antisymm hk' hle
    exact hik'

end Sound

end Search

namespace Graph

/-- **The search finds shortest walks.** From seeds inside the graph it returns a map in ascending
order. In it are exactly the declarations that a seed reaches within the radius, each with the least
number of steps from a seed. A search with one queue ends after one look at each declaration that it
finds, and what it finds is the same. -/
theorem build_reach_shortest (source : List Char) (tree : Node) {seeds : IndexSet} (radius : Nat)
    (hs : ∀ i ∈ seeds, i < (Graph.build source tree).size) :
    let g := Graph.build source tree
    ∃ ds, g.reach? seeds radius = some ds ∧ ds.Pairwise (fun x y => x.1 < y.1) ∧
      (∀ i, (∃ k, (i, k) ∈ ds) ↔ ∃ s ∈ seeds, ∃ n ≤ radius, g.Steps s n i) ∧
      (∀ i k, (i, k) ∈ ds → IsLeast {n | ∃ s ∈ seeds, g.Steps s n i} k) ∧
      ∃ found, Search.Ends g radius (.start seeds) found.length found ∧ found.Perm ds := by
  intro g
  have hp : g.Paired := build_paired source tree
  obtain ⟨ds, hds, -⟩ := hp.edgesInside.exists_reach radius hs
  have hascending := hp.reach_ascending hs hds
  have hmem : ∀ i k, (i, k) ∈ ds ↔ IsLeast {n | ∃ s ∈ seeds, g.Steps s n i} k ∧ k ≤ radius := by
    intro i k
    rw [hp.mem_reach hs hds, hp.distance_eq_iff]
  refine ⟨ds, hds, hascending, ?_, fun i k hik => ((hmem i k).mp hik).1, ?_⟩
  · intro i
    rw [← hp.distance_le_iff_steps, ENat.le_natCast_iff]
    simp only [hp.mem_reach hs hds]
  · have hstart : Search.Sound g seeds radius [] _ := Search.sound_start hs
    obtain ⟨found, hsound, hends⟩ := hstart.exists_ends hp.edgesInside g.size (Nat.le_add_left _ _)
    rw [List.nil_append] at hsound hends
    rw [Distances.map_fst_round] at hends
    -- neither list repeats anything, so that it is enough to compare their members
    refine ⟨found, hends, (List.perm_ext_iff_of_nodup ?_ ?_).mpr ?_⟩
    · have hnodup := hsound.nodup
      rw [List.append_nil] at hnodup
      exact hnodup.of_map _
    · refine hascending.imp ?_
      rintro x y hlt rfl
      exact Nat.lt_irrefl _ hlt
    · rintro ⟨i, k⟩
      rw [hsound.mem_iff, hmem]

/-- The text of two functions that call each other, and the first also itself. -/
def recursiveText : List Char :=
  "function f()\x7bg();f()\x7dfunction g()\x7bf()\x7d".toList

/-- The tree of that text. -/
def recursiveTree : Node :=
  .mk ⟨.other, 0, 38, true, false, false, []⟩ [
    .mk ⟨.functionDeclaration, 0, 21, true, false, false, []⟩ [
      .mk ⟨.identifier, 9, 10, true, false, false, [.name]⟩ [],
      .mk ⟨.other, 12, 21, true, false, false, []⟩ [
        .mk ⟨.callExpression, 13, 16, true, false, false, []⟩ [
          .mk ⟨.identifier, 13, 14, true, false, false, [.function]⟩ [],
          .mk ⟨.arguments, 14, 16, true, false, false, [.arguments]⟩ []],
        .mk ⟨.callExpression, 17, 20, true, false, false, []⟩ [
          .mk ⟨.identifier, 17, 18, true, false, false, [.function]⟩ [],
          .mk ⟨.arguments, 18, 20, true, false, false, [.arguments]⟩ []]]],
    .mk ⟨.functionDeclaration, 21, 38, true, false, false, []⟩ [
      .mk ⟨.identifier, 30, 31, true, false, false, [.name]⟩ [],
      .mk ⟨.other, 33, 38, true, false, false, []⟩ [
        .mk ⟨.callExpression, 34, 37, true, false, false, []⟩ [
          .mk ⟨.identifier, 34, 35, true, false, false, [.function]⟩ [],
          .mk ⟨.arguments, 35, 37, true, false, false, [.arguments]⟩ []]]]]

/-- The graph of that tree. -/
def recursiveCalls : Graph := Graph.build recursiveText recursiveTree

/-- Calls in a circle and a radius beyond all that there is do not mislead the search. -/
theorem build_reach_shortest_recursive :
    (∀ i ∈ IndexSet.ofList [1], i < recursiveCalls.size) ∧
      ∃ ds, recursiveCalls.reach? (IndexSet.ofList [1]) 5 = some ds ∧
        ds.Pairwise (fun x y => x.1 < y.1) ∧
        (∀ i, (∃ k, (i, k) ∈ ds) ↔
          ∃ s ∈ IndexSet.ofList [1], ∃ n ≤ 5, recursiveCalls.Steps s n i) ∧
        (∀ i k, (i, k) ∈ ds →
          IsLeast {n | ∃ s ∈ IndexSet.ofList [1], recursiveCalls.Steps s n i} k) ∧
        ∃ found, Search.Ends recursiveCalls 5 (.start (IndexSet.ofList [1])) found.length found ∧
          found.Perm ds := by
  have hs : ∀ i ∈ IndexSet.ofList [1], i < recursiveCalls.size := by
    intro i hi
    obtain rfl : i = 1 := List.mem_singleton.mp hi
    rw [recursiveCalls, Graph.build, Draft.freeze_size]
    decide +kernel
  exact ⟨hs, build_reach_shortest recursiveText recursiveTree 5 hs⟩

end Graph

end CallVicinity
