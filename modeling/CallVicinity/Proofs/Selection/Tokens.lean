import CallVicinity.Proofs.Selection.Distance

/-!
# Selections around several tokens

Tokens are looked up one by one, so that the tokens of two lists together stand for what those of
either list stand for (`Graph.matchingAny_append`). A declaration is as far from seeds of two kinds
as from the nearer kind (`Graph.distance_union`). Since a selection is determined by the distances
from its seeds, this is all that is needed to relate the selection around two lists of tokens to
the selections around each of them:

> `Graph.build_select_append`: what is selected around the tokens of two lists is the union of what
> is selected around those of each.

The searches behind the three selections meet the declarations in different orders, and the climbs
to the owners stop at different places. Neither can be seen in the result.
-/

namespace CallVicinity

theorem IndexSet.isEmpty_iff {s : IndexSet} : s.isEmpty = true ↔ ∀ i, i ∉ s := by
  constructor
  · intro h i
    exact IndexSet.not_mem_of_isEmpty h i
  · intro h
    exact List.isEmpty_iff.mpr (List.eq_nil_iff_forall_not_mem.mpr h)

namespace Graph

/-! ## What tokens stand for -/

section Tokens

variable {g : Graph}

theorem mem_matchingAny {tokens : List String} {i : Nat} :
    i ∈ g.matchingAny tokens ↔ ∃ token ∈ tokens, i ∈ g.matching token := by
  unfold matchingAny
  induction tokens with
  | nil => simp
  | cons token tokens ih =>
    rw [List.foldr_cons, IndexSet.mem_union, ih]
    simp only [List.mem_cons, exists_eq_or_imp]

theorem matchingAny_append (A B : List String) :
    g.matchingAny (A ++ B) = (g.matchingAny A).union (g.matchingAny B) := by
  refine IndexSet.ext_mem fun i => ?_
  rw [IndexSet.mem_union, mem_matchingAny, mem_matchingAny, mem_matchingAny]
  simp only [List.mem_append, or_and_right, exists_or]

/-- Only the set of the tokens matters. -/
theorem matchingAny_congr {A B : List String} (h : ∀ token, token ∈ A ↔ token ∈ B) :
    g.matchingAny A = g.matchingAny B := by
  refine IndexSet.ext_mem fun i => ?_
  rw [mem_matchingAny, mem_matchingAny]
  simp only [h]

/-- Tokens that stand for nothing add nothing to others. -/
theorem matchingAny_append_of_isEmpty {A B : List String}
    (h : (g.matchingAny B).isEmpty = true) :
    g.matchingAny (A ++ B) = g.matchingAny A ∧ g.matchingAny (B ++ A) = g.matchingAny A := by
  have hB := IndexSet.isEmpty_iff.mp h
  refine ⟨IndexSet.ext_mem fun i => ?_, IndexSet.ext_mem fun i => ?_⟩
  · rw [matchingAny_append, IndexSet.mem_union]
    simp only [hB, or_false]
  · rw [matchingAny_append, IndexSet.mem_union]
    simp only [hB, false_or]

theorem matchingAny_append_isEmpty {A B : List String} :
    (g.matchingAny (A ++ B)).isEmpty = true ↔
      (g.matchingAny A).isEmpty = true ∧ (g.matchingAny B).isEmpty = true := by
  simp only [IndexSet.isEmpty_iff, matchingAny_append, IndexSet.mem_union, not_or, forall_and]

/-- What is selected depends on what the tokens stand for, not on the tokens. -/
theorem select_congr {A B : List String} (h : g.matchingAny A = g.matchingAny B) {f c : Nat}
    {s : Selection} : g.select ⟨A, f, c⟩ = .ok s ↔ g.select ⟨B, f, c⟩ = .ok s := by
  rw [select_eq_ok, select_eq_ok]
  show (g.matchingAny A).isEmpty = false ∧ g.selectFrom? (g.matchingAny A) ⟨A, f, c⟩ = some s ↔ _
  rw [h]
  exact Iff.rfl

/-! ## Distances from several seeds -/

/-- A declaration is as far from two sets of seeds as from the nearer one. -/
theorem distance_union (s t : IndexSet) (i : Nat) :
    g.distance (s.union t) i = min (g.distance s i) (g.distance t i) := by
  unfold distance
  simp only [IndexSet.mem_union, iInf_or, iInf_inf_eq]

end Tokens

/-- Within a bound, a minimum is the least of the values that are within the bound. -/
theorem min_eq_iff_isLeast {x y : ℕ∞} {bound d : ℕ} :
    min x y = d ∧ d ≤ bound ↔
      IsLeast {k : ℕ | (x = k ∧ k ≤ bound) ∨ (y = k ∧ k ≤ bound)} d := by
  have hattained : ∀ k : ℕ, min x y = k → k ≤ bound →
      (x = k ∧ k ≤ bound) ∨ (y = k ∧ k ≤ bound) := by
    intro k hk hkb
    rcases min_choice x y with hx | hy
    · exact Or.inl ⟨hx.symm.trans hk, hkb⟩
    · exact Or.inr ⟨hy.symm.trans hk, hkb⟩
  constructor
  · intro h
    obtain ⟨hmin, hd⟩ := h
    refine ⟨hattained d hmin hd, ?_⟩
    intro k hk
    refine Nat.cast_le.mp (hmin.symm.le.trans ?_)
    rcases hk with ⟨hx, -⟩ | ⟨hy, -⟩
    · rw [← hx]
      exact min_le_left x y
    · rw [← hy]
      exact min_le_right x y
  · intro h
    obtain ⟨hd, hleast⟩ := h
    have hbound : d ≤ bound := hd.elim And.right And.right
    refine ⟨le_antisymm ?_ ?_, hbound⟩
    · rcases hd with ⟨hx, -⟩ | ⟨hy, -⟩
      · exact (min_le_left x y).trans_eq hx
      · exact (min_le_right x y).trans_eq hy
    · -- a smaller value would be within the bound and so among those that `d` is the least of
      by_contra hlt
      obtain ⟨k, hk⟩ := ENat.ne_top_iff_exists.mp (ne_top_of_lt (not_le.mp hlt))
      rw [← hk, not_le, Nat.cast_lt] at hlt
      have := hleast (hattained k hk.symm (by omega))
      omega

end Graph

/-! ## The union of two selections -/

/-- Selection `u` is the union of `a` and `b`: each of its sets is the union of theirs, and it has a
declaration at the smallest distance at which one of them has it. -/
structure Selection.IsUnion (u a b : Selection) : Prop where
  seeds : u.seeds = a.seeds.union b.seeds
  fullDetail : u.fullDetail = a.fullDetail.union b.fullDetail
  context : u.context = a.context.union b.context
  included : u.included = a.included.union b.included
  distances : ∀ i d, (i, d) ∈ u.distances ↔
    IsLeast {k | (i, k) ∈ a.distances ∨ (i, k) ∈ b.distances} d

/-- What is selected exactly around the tokens of two lists is the union of what is selected exactly
around each of them. -/
theorem Selection.Exact.isUnion {g : Graph} {A B : List String} {f c : Nat} {u a b : Selection}
    (ha : a.Exact g ⟨A, f, c⟩) (hb : b.Exact g ⟨B, f, c⟩) (hu : u.Exact g ⟨A ++ B, f, c⟩) :
    u.IsUnion a b := by
  have hseeds : u.seeds = a.seeds.union b.seeds := by
    rw [hu.seeds, ha.seeds, hb.seeds]
    exact Graph.matchingAny_append A B
  have hdistance : ∀ i, g.distance u.seeds i
      = min (g.distance a.seeds i) (g.distance b.seeds i) := by
    intro i
    rw [hseeds]
    exact Graph.distance_union a.seeds b.seeds i
  have hcontext : u.context = a.context.union b.context := by
    refine IndexSet.ext_mem fun i => ?_
    rw [IndexSet.mem_union, hu.mem_context, ha.mem_context, hb.mem_context, hdistance, min_le_iff]
    exact Iff.rfl
  refine ⟨hseeds, IndexSet.ext_mem fun i => ?_, hcontext, IndexSet.ext_mem fun i => ?_, ?_⟩
  · rw [IndexSet.mem_union, hu.mem_full, ha.mem_full, hb.mem_full, hdistance, min_le_iff]
  · rw [IndexSet.mem_union, hu.coherent.included_iff, ha.coherent.included_iff,
      hb.coherent.included_iff, hcontext]
    simp only [IndexSet.mem_union, or_and_right, exists_or]
  · intro i d
    rw [hu.mem_distances, hdistance, Graph.min_eq_iff_isLeast]
    simp only [ha.mem_distances, hb.mem_distances]
    exact Iff.rfl

namespace Graph

/-- **Selections around the tokens of two lists.** Around both together there is nothing exactly if
there is nothing around either, and the failure then shows all tokens in order. Where one list finds
nothing, the other decides alone. Else the selection is the union of the two. So neither the order
of tokens nor their repetition matters. -/
theorem build_select_append (source : List Char) (tree : Node) (A B : List String) (f c : Nat) :
    let g := Graph.build source tree
    let around := fun tokens => g.select ⟨tokens, f, c⟩
    ((∃ e, around (A ++ B) = .error e) ↔ (∃ e, around A = .error e) ∧ ∃ e, around B = .error e) ∧
    (∀ e, around (A ++ B) = .error e → e = .seeds (A ++ B)) ∧
    (∀ a e, around A = .ok a → around B = .error e → around (A ++ B) = .ok a) ∧
    (∀ b e, around A = .error e → around B = .ok b → around (A ++ B) = .ok b) ∧
    (∀ a b, around A = .ok a → around B = .ok b →
      ∃ u, around (A ++ B) = .ok u ∧ u.IsUnion a b) ∧
    ∀ A', (∀ token, token ∈ A' ↔ token ∈ A) →
      (∃ s, around A = .ok s ∧ around A' = .ok s) ∨
      around A = .error (.seeds A) ∧ around A' = .error (.seeds A') := by
  intro g around
  obtain ⟨depth, hg⟩ := build_owned source tree
  have hp := build_paired source tree
  have herror : ∀ {tokens e}, around tokens = .error e ↔
      (g.matchingAny tokens).isEmpty = true ∧ e = .seeds tokens :=
    fun {_ _} => hg.select_eq_error hp.edgesInside
  have hfails : ∀ tokens, (∃ e, around tokens = .error e) ↔
      (g.matchingAny tokens).isEmpty = true := by
    intro tokens
    simp only [herror, exists_eq_right]
  refine ⟨?_, ?_, ?_, ?_, ?_, ?_⟩
  · rw [hfails, hfails, hfails]
    exact matchingAny_append_isEmpty
  · intro e he
    exact (herror.mp he).2
  · intro a e ha hb
    exact (select_congr (matchingAny_append_of_isEmpty (herror.mp hb).1).1).mpr ha
  · intro b e ha hb
    exact (select_congr (matchingAny_append_of_isEmpty (herror.mp ha).1).2).mpr hb
  · intro a b ha hb
    cases hu : around (A ++ B) with
    | error e =>
      -- both together fail only if both fail
      have hempty := (matchingAny_append_isEmpty.mp (herror.mp hu).1).1
      rw [(select_eq_ok.mp ha).1] at hempty
      exact absurd hempty (by simp)
    | ok u =>
      exact ⟨u, rfl, (hg.exact_of_select hp ha).isUnion (hg.exact_of_select hp hb)
        (hg.exact_of_select hp hu)⟩
  · intro A' hA'
    have hsame : g.matchingAny A' = g.matchingAny A := matchingAny_congr hA'
    cases hs : around A with
    | ok s => exact Or.inl ⟨s, rfl, (select_congr hsame).mpr hs⟩
    | error e =>
      obtain ⟨hempty, rfl⟩ := herror.mp hs
      refine Or.inr ⟨rfl, herror.mpr ⟨?_, rfl⟩⟩
      rw [hsame]
      exact hempty

/-- The function around the caller comes in as a seed, and a token that finds nothing adds
nothing. -/
theorem build_select_append_innerCall :
    ∃ a b u, innerCallGraph.select ⟨["g"], 0, 1⟩ = .ok a ∧
      innerCallGraph.select ⟨["h"], 0, 1⟩ = .ok b ∧
      (Graph.build innerCall.text.toList innerCall.tree).select ⟨["g", "h"], 0, 1⟩ = .ok u ∧
      (Graph.build innerCall.text.toList innerCall.tree).select ⟨["g", "x"], 0, 1⟩ = .ok a ∧
      u.IsUnion a b ∧ a.context = .ofList [0, 2] ∧ b.context = .ofList [1] ∧
      u.fullDetail = .ofList [0, 1] ∧ u.context = .ofList [0, 1, 2] := by
  have ha : innerCallGraph.select ⟨["g"], 0, 1⟩ = .ok (aroundCalled 0) := innerCallGraph_select rfl
  have hseeds : innerCallGraph.matchingAny ["h"] = .ofList [1] := by decide +kernel
  have hrounds : innerCallGraph.rounds? 1 (.ofList [1]) (.ofList [1]) 0 = some [(1, 0)] := by
    decide +kernel
  have hincluded : innerCallGraph.closure? (Distances.reached [(1, 0)]) = some (.ofList [1]) := by
    decide +kernel
  have hb := select_of_rounds (r := ⟨["h"], 0, 1⟩) hseeds rfl hrounds (by decide) hincluded
  have hx : innerCallGraph.select ⟨["x"], 0, 1⟩ = .error (.seeds ["x"]) := by decide +kernel
  rw [← build_innerCall] at ha hb hx ⊢
  obtain ⟨-, -, -, -, hunion, -⟩ :=
    build_select_append innerCall.text.toList innerCall.tree ["g"] ["h"] 0 1
  obtain ⟨-, -, hnothing, -⟩ :=
    build_select_append innerCall.text.toList innerCall.tree ["g"] ["x"] 0 1
  obtain ⟨u, hu, huab⟩ := hunion _ _ ha hb
  refine ⟨_, _, u, ha, hb, hu, hnothing _ _ ha hx, huab, rfl, rfl, ?_, ?_⟩
  · rw [huab.fullDetail]
    decide
  · rw [huab.context]
    decide

end Graph

end CallVicinity
