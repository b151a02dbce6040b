import CallVicinity.Proofs.Selection.Distance

/-!
# The closure under owners, walk by walk

The closure walks up from every declaration that it started from, and each walk ends at the first
owner that is in the set already. Such an owner may owe its own owners still: it may be one of the
declarations that the closure started from, whose walk is yet to come, or it may have been added by
a walk that ended early itself. Nothing is lost by it:

> `Graph.build_closure`: the closure of a set is the set with all ancestors of its members, which is
> the least set around it that holds the owner of each of its members.

What a single walk does is said exactly (`Graph.OwnerChain.climb?_eq`): it adds the ancestors of a
declaration up to the first that is there. The bound on its steps never ends it.
-/

namespace CallVicinity

namespace Graph

section Walks

variable {g : Graph} {depth : Nat → Nat}

/-- The ancestors of a declaration are all that is above it. -/
theorem Owned.exists_ancestors (hg : g.Owned depth) {i : Nat} {n : Declaration}
    (hn : g.node? i = some n) :
    ∃ as, g.ancestors? i = some as ∧ g.OwnerChain n.owner as ∧
      ∀ a, a ∈ as ↔ Relation.TransGen g.Owner i a := by
  obtain ⟨as, hchain, -⟩ := hg.exists_owners hn
  refine ⟨as, hg.ancestors?_eq hn hchain, hchain, ?_⟩
  intro a
  rw [Relation.TransGen.head'_iff]
  constructor
  · intro ha
    obtain ⟨p, hp, hpa⟩ := hchain.above a ha
    exact ⟨p, ⟨n, hn, hp⟩, hpa⟩
  · rintro ⟨p, hp, hpa⟩
    exact hchain.mem_of_above ((owner_iff hn).mp hp) hpa

/-- **A walk adds a chain up to the first of it that is in the set.** Asking the set as it grows
gives the same as asking it as it was, since a chain does not come back to what the walk has
added. -/
theorem OwnerChain.climb?_eq (hg : g.Owned depth) {next : Option Nat} {as : List Nat}
    (h : g.OwnerChain next as) : ∀ {fuel : Nat} (found : IndexSet), as.length ≤ fuel →
      g.climb? fuel next found
        = some ((IndexSet.ofList (as.takeWhile fun a => decide (a ∉ found))).union found) := by
  induction h with
  | stop => intro fuel found _; cases fuel <;> rfl
  | @step i n as hn rest ih =>
    intro fuel found hfuel
    cases fuel with
    | zero => exact absurd hfuel (by simp)
    | succ fuel =>
      rw [climb?]
      by_cases hi : i ∈ found
      · rw [if_pos hi, List.takeWhile_cons_of_neg (by simpa using hi)]
        rfl
      · have hnew : i ∉ as := (List.nodup_cons.mp ((OwnerChain.step hn rest).nodup hg)).1
        have hsame : as.takeWhile (fun a => decide (a ∉ found.insert i))
            = as.takeWhile fun a => decide (a ∉ found) := by
          refine takeWhile_congr_of_mem fun a ha => ?_
          have hne : a ≠ i := fun he => hnew (he ▸ ha)
          simp [hne]
        rw [if_neg hi, hn, List.takeWhile_cons_of_pos (by simpa using hi)]
        show g.climb? fuel n.owner (found.insert i) = _
        rw [ih _ (Nat.le_of_succ_le_succ hfuel), hsame]
        refine congrArg some (IndexSet.ext_mem fun a => ?_)
        simp only [IndexSet.mem_union, IndexSet.mem_ofList, IndexSet.mem_insert, List.mem_cons]
        exact or_left_comm.trans or_assoc.symm

end Walks

/-- **The closure of a set is the set with all ancestors of its members.** It is found for any
declarations of the graph, and it is the least set around them that holds the owner of each of its
members. Each walk of it adds the ancestors of one declaration up to the first that is there
already, whatever is there, and nothing else ends it. -/
theorem build_closure (source : List Char) (tree : Node) {start : IndexSet}
    (hs : ∀ i ∈ start, i < (Graph.build source tree).size) :
    let g := Graph.build source tree
    ∃ included, g.closure? start = some included ∧
      (∀ a, a ∈ included ↔
        a ∈ start ∨ ∃ i ∈ start, ∃ as, g.ancestors? i = some as ∧ a ∈ as) ∧
      IsLeast {t : Set Nat | (∀ i ∈ start, i ∈ t) ∧ ∀ i p, g.Owner i p → i ∈ t → p ∈ t}
        {i | i ∈ included} ∧
      ∀ i n, g.node? i = some n → ∃ as, g.ancestors? i = some as ∧ g.OwnerChain n.owner as ∧
        ∀ found, g.climb? g.size n.owner found
          = some ((IndexSet.ofList (as.takeWhile fun a => decide (a ∉ found))).union found) := by
  intro g
  obtain ⟨depth, hg⟩ := build_owned source tree
  obtain ⟨included, hclosure, hmem⟩ := hg.exists_closure hs
  refine ⟨included, hclosure, ?_, isLeast_above hmem, ?_⟩
  · intro a
    rw [hmem]
    simp only [Relation.reflTransGen_iff_eq_or_transGen]
    constructor
    · rintro ⟨i, hi, rfl | hia⟩
      · exact Or.inl hi
      · obtain ⟨n, hn⟩ := exists_node? (hs i hi)
        obtain ⟨as, has, -, habove⟩ := hg.exists_ancestors hn
        exact Or.inr ⟨i, hi, as, has, (habove a).mpr hia⟩
    · rintro (ha | ⟨i, hi, as, has, ha⟩)
      · exact ⟨a, ha, Or.inl rfl⟩
      · obtain ⟨n, hn⟩ := exists_node? (hs i hi)
        obtain ⟨as', has', -, habove⟩ := hg.exists_ancestors hn
        obtain rfl := Option.some.inj (has.symm.trans has')
        exact ⟨i, hi, Or.inr ((habove a).mp ha)⟩
  · intro i n hn
    obtain ⟨as, has, hchain, -⟩ := hg.exists_ancestors hn
    have hlen := Nat.le_of_lt ((OwnerChain.step hn hchain).length_lt_size hg)
    exact ⟨as, has, hchain, fun found => hchain.climb?_eq hg found hlen⟩

/-- The text of three functions, each inside the one before. -/
def nestedText : List Char :=
  "function f()\x7bfunction g()\x7bfunction h()\x7b\x7d\x7d\x7d".toList

/-- The tree of that text. -/
def nestedTree : Node :=
  .mk ⟨.other, 0, 42, true, false, false, []⟩ [
    .mk ⟨.functionDeclaration, 0, 42, true, false, false, []⟩ [
      .mk ⟨.identifier, 9, 10, true, false, false, [.name]⟩ [],
      .mk ⟨.other, 12, 42, true, false, false, []⟩ [
        .mk ⟨.functionDeclaration, 13, 41, true, false, false, []⟩ [
          .mk ⟨.identifier, 22, 23, true, false, false, [.name]⟩ [],
          .mk ⟨.other, 25, 41, true, false, false, []⟩ [
            .mk ⟨.functionDeclaration, 26, 40, true, false, false, []⟩ [
              .mk ⟨.identifier, 35, 36, true, false, false, [.name]⟩ []]]]]]]

/-- The graph of that tree. -/
def nestedOwners : Graph := Graph.build nestedText nestedTree

/-- The walk from the innermost function ends at once, at the one in the middle, and the outermost
one is found all the same. -/
theorem build_closure_nested :
    (∀ i ∈ IndexSet.ofList [1, 2], i < nestedOwners.size) ∧
      ∃ included, nestedOwners.closure? (IndexSet.ofList [1, 2]) = some included ∧
        (∀ a, a ∈ included ↔ a ∈ IndexSet.ofList [1, 2] ∨
          ∃ i ∈ IndexSet.ofList [1, 2], ∃ as, nestedOwners.ancestors? i = some as ∧ a ∈ as) ∧
        IsLeast {t : Set Nat | (∀ i ∈ IndexSet.ofList [1, 2], i ∈ t) ∧
            ∀ i p, nestedOwners.Owner i p → i ∈ t → p ∈ t} {i | i ∈ included} ∧
        ∀ i n, nestedOwners.node? i = some n →
          ∃ as, nestedOwners.ancestors? i = some as ∧ nestedOwners.OwnerChain n.owner as ∧
            ∀ found, nestedOwners.climb? nestedOwners.size n.owner found
              = some ((IndexSet.ofList (as.takeWhile fun a => decide (a ∉ found))).union found) := by
  have hs : ∀ i ∈ IndexSet.ofList [1, 2], i < nestedOwners.size := by
    rw [nestedOwners, Graph.build, Draft.freeze_size]
    decide +kernel
  exact ⟨hs, build_closure nestedText nestedTree hs⟩

end Graph

end CallVicinity
