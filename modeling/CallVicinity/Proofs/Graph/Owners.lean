import Mathlib.Data.List.Perm.Subperm
import Mathlib.Logic.Relation
import CallVicinity.Graph.Forest
import CallVicinity.Proofs.Lists

/-!
# Chains of owners

`Graph.ancestors?` walks from a declaration to its owner, the owner's owner and so on, and stops
after as many steps as the graph has declarations. That bound is never what ends the walk, as long
as owners are *less deep* than what they own:

> `Graph.Owned`: owners are in range and less deep, for some measure of depth, and the list of
> children of a declaration holds exactly what it owns, in ascending order.

`Graph.OwnerChain` is the walk without a bound. In an owned graph the chain exists
(`Owned.exists_chain`), repeats nothing, is no longer than the declaration is deep
(`OwnerChain.length_le_depth`) and shorter than the graph is large (`OwnerChain.length_lt_size`), so
the bounded walk finds all of it (`Owned.ancestors?_eq`).
-/

namespace CallVicinity

namespace Graph

theorem node?_lt {g : Graph} {i : Nat} {n : Declaration} (h : g.node? i = some n) : i < g.size :=
  (Array.getElem?_eq_some_iff.mp h).1

theorem exists_node? {g : Graph} {i : Nat} (h : i < g.size) : ∃ n, g.node? i = some n :=
  ⟨_, Array.getElem?_eq_getElem h⟩

/-- Declaration `p` owns declaration `i`. -/
def Owner (g : Graph) (i p : Nat) : Prop :=
  ∃ n, g.node? i = some n ∧ n.owner = some p

theorem owner_iff {g : Graph} {i p : Nat} {n : Declaration} (hn : g.node? i = some n) :
    g.Owner i p ↔ n.owner = some p := by
  unfold Owner
  rw [hn]
  simp

/-- A declaration has at most one owner. -/
theorem Owner.unique {g : Graph} : Relator.RightUnique g.Owner := by
  intro i p q hp hq
  obtain ⟨n, hn, hnp⟩ := hp
  rw [owner_iff hn, hnp] at hq
  exact Option.some.inj hq

/-- Ownership in a graph is sound for a measure of depth: owners are in range and less deep, and the
children of a declaration are what it owns, ascending. -/
structure Owned (g : Graph) (depth : Nat → Nat) : Prop where
  upward : ∀ {i p : Nat}, g.Owner i p → p < g.size ∧ depth p < depth i
  children : ∀ {i : Nat} {n : Declaration}, g.node? i = some n →
    ∀ c, c ∈ n.children ↔ g.Owner c i
  ascending : ∀ {i : Nat} {n : Declaration}, g.node? i = some n → n.children.Pairwise (· < ·)

/-- The owners from an optional declaration on upwards, to one without an owner. -/
inductive OwnerChain (g : Graph) : Option Nat → List Nat → Prop where
  | stop : OwnerChain g none []
  | step {i : Nat} {n : Declaration} {as : List Nat} (hn : g.node? i = some n)
      (rest : OwnerChain g n.owner as) : OwnerChain g (some i) (i :: as)

section Chains

variable {g : Graph} {depth : Nat → Nat}

/-- All of a chain is above its first. -/
theorem OwnerChain.above {next : Option Nat} {as : List Nat} (h : g.OwnerChain next as) :
    ∀ a ∈ as, ∃ p, next = some p ∧ Relation.ReflTransGen g.Owner p a := by
  induction h with
  | stop => intro a ha; exact absurd ha List.not_mem_nil
  | @step i n as hn _ ih =>
    intro a ha
    refine ⟨i, rfl, ?_⟩
    rcases List.mem_cons.mp ha with hE | hT
    · rw [hE]
    · obtain ⟨p, hp, hpa⟩ := ih a hT
      exact .head ⟨n, hn, hp⟩ hpa

/-- A chain holds all that is above its first. -/
theorem OwnerChain.mem_of_above {next : Option Nat} {as : List Nat} (h : g.OwnerChain next as) :
    ∀ {p a : Nat}, next = some p → Relation.ReflTransGen g.Owner p a → a ∈ as := by
  induction h with
  | stop => intro p a hp; exact absurd hp (by simp)
  | @step i n as hn _ ih =>
    intro p a hp hpa
    obtain rfl := Option.some.inj hp
    rcases Relation.ReflTransGen.cases_head hpa with rfl | ⟨q, hq, hqa⟩
    · exact List.mem_cons_self
    · exact List.mem_cons_of_mem _ (ih ((owner_iff hn).mp hq) hqa)

/-- Every member of a chain that starts below a depth is in range and below that depth. -/
theorem OwnerChain.mem_lt (hg : g.Owned depth) {next : Option Nat} {as : List Nat}
    (h : g.OwnerChain next as) :
    ∀ {bound : Nat}, (∀ p, next = some p → depth p < bound) →
      ∀ a ∈ as, a < g.size ∧ depth a < bound := by
  induction h with
  | stop => intro bound _ a ha; exact absurd ha List.not_mem_nil
  | @step i n as hn _ ih =>
    intro bound hb a ha
    have hi := hb i rfl
    rcases List.mem_cons.mp ha with hE | hT
    · rw [hE]; exact ⟨node?_lt hn, hi⟩
    · have hup : ∀ p, n.owner = some p → depth p < depth i :=
        fun p hp => (hg.upward ⟨n, hn, hp⟩).2
      obtain ⟨hlt, hdepth⟩ := ih hup a hT
      exact ⟨hlt, by omega⟩

/-- A chain repeats nothing, since it gets less deep at every step. -/
theorem OwnerChain.nodup (hg : g.Owned depth) {next : Option Nat} {as : List Nat}
    (h : g.OwnerChain next as) : as.Nodup := by
  induction h with
  | stop => exact List.nodup_nil
  | @step i n as hn rest ih =>
    refine List.nodup_cons.mpr ⟨?_, ih⟩
    intro hmem
    have hup : ∀ p, n.owner = some p → depth p < depth i :=
      fun p hp => (hg.upward ⟨n, hn, hp⟩).2
    have := (rest.mem_lt hg hup i hmem).2
    omega

/-- A chain that starts below a depth is no longer than that. -/
theorem OwnerChain.length_le_depth (hg : g.Owned depth) {next : Option Nat} {as : List Nat}
    (h : g.OwnerChain next as) :
    ∀ {bound : Nat}, (∀ p, next = some p → depth p < bound) → as.length ≤ bound := by
  induction h with
  | stop => intro bound _; exact Nat.zero_le _
  | @step i n as hn _ ih =>
    intro bound hb
    have hi := hb i rfl
    have hrec := ih fun p hp => (hg.upward ⟨n, hn, hp⟩).2
    rw [List.length_cons]
    omega

/-- The owners of a declaration together with it are as many as the graph has at most. -/
theorem OwnerChain.length_lt_size (hg : g.Owned depth) {i : Nat} {as : List Nat}
    (h : g.OwnerChain (some i) (i :: as)) : as.length < g.size := by
  have hsub : i :: as ⊆ List.range g.size := by
    intro a ha
    have hb : ∀ p, some i = some p → depth p < depth i + 1 := by
      intro p hp
      rw [← Option.some.inj hp]
      exact Nat.lt_succ_self _
    exact List.mem_range.mpr (h.mem_lt hg hb a ha).1
  -- a list of indexes in range that repeats none is no longer than the range
  have hle := ((h.nodup hg).subperm hsub).length_le
  rw [List.length_range, List.length_cons] at hle
  exact hle

/-- Going up from a declaration in range ends: its chain of owners exists. -/
theorem Owned.exists_chain (hg : g.Owned depth) :
    ∀ (bound i : Nat), depth i < bound → i < g.size → ∃ as, g.OwnerChain (some i) (i :: as) := by
  intro bound
  induction bound with
  | zero => intro i hi; exact absurd hi (Nat.not_lt_zero _)
  | succ bound ih =>
    intro i hi hlt
    obtain ⟨n, hn⟩ := exists_node? hlt
    cases ho : n.owner with
    | none => exact ⟨[], .step hn (by rw [ho]; exact .stop)⟩
    | some p =>
      obtain ⟨hp, hdp⟩ := hg.upward ⟨n, hn, ho⟩
      obtain ⟨as, has⟩ := ih p (by omega) hp
      exact ⟨p :: as, .step hn (by rw [ho]; exact has)⟩

/-- The owners of a declaration, as a chain. -/
theorem Owned.exists_owners (hg : g.Owned depth) {i : Nat} {n : Declaration}
    (hn : g.node? i = some n) : ∃ as, g.OwnerChain n.owner as ∧ as.length < g.size := by
  obtain ⟨as, has⟩ := hg.exists_chain (depth i + 1) i (Nat.lt_succ_self _) (node?_lt hn)
  refine ⟨as, ?_, has.length_lt_size hg⟩
  cases has with
  | @step _ m _ hm rest =>
    rw [hn] at hm
    rw [Option.some.inj hm]
    exact rest

/-- The bounded walk finds a chain that is no longer than the bound. -/
theorem OwnerChain.ownersFrom?_eq {next : Option Nat} {as : List Nat}
    (h : g.OwnerChain next as) :
    ∀ {fuel : Nat}, as.length ≤ fuel → g.ownersFrom? fuel next = some as := by
  induction h with
  | stop => intro fuel _; cases fuel <;> rfl
  | @step i n as hn _ ih =>
    intro fuel hfuel
    cases fuel with
    | zero => exact absurd hfuel (by simp)
    | succ fuel =>
      have hrec := ih (Nat.le_of_succ_le_succ hfuel)
      show (do let n ← g.node? i; return i :: (← g.ownersFrom? fuel n.owner)) = some (i :: as)
      rw [hn]
      show (do return i :: (← g.ownersFrom? fuel n.owner)) = some (i :: as)
      rw [hrec]
      rfl

/-- **The owners of a declaration are its whole chain.** -/
theorem Owned.ancestors?_eq (hg : g.Owned depth) {i : Nat} {n : Declaration} {as : List Nat}
    (hn : g.node? i = some n) (has : g.OwnerChain n.owner as) : g.ancestors? i = some as := by
  have hlt := (OwnerChain.step hn has).length_lt_size hg
  show (do g.ownersFrom? g.size (← g.node? i).owner) = some as
  rw [hn]
  exact has.ownersFrom?_eq (Nat.le_of_lt hlt)

/-! ## Everything is below a declaration without an owner -/

/-- Going up from a declaration never gets deeper. -/
theorem Owned.depth_le (hg : g.Owned depth) {i a : Nat}
    (h : Relation.ReflTransGen g.Owner i a) : depth a ≤ depth i := by
  induction h with
  | refl => exact Nat.le_refl _
  | tail _ hstep ih =>
    have := (hg.upward hstep).2
    omega

theorem mem_indexesWhere {p : Declaration → Bool} {i : Nat} :
    i ∈ g.indexesWhere p ↔ ∃ n, g.node? i = some n ∧ p n = true := by
  unfold indexesWhere node?
  rw [mem_map_snd_filter_zipIdx, Array.getElem?_toList]

/-- The roots are the declarations without an owner. -/
theorem mem_roots {i : Nat} : i ∈ g.roots ↔ ∃ n, g.node? i = some n ∧ n.owner = none := by
  unfold roots
  rw [mem_indexesWhere]
  simp only [Option.isNone_iff_eq_none]

/-- Every declaration is a root or below one. -/
theorem Owned.exists_root (hg : g.Owned depth) :
    ∀ (bound i : Nat), depth i < bound → i < g.size →
      ∃ r ∈ g.roots, Relation.ReflTransGen g.Owner i r := by
  intro bound
  induction bound with
  | zero => intro i hi; exact absurd hi (Nat.not_lt_zero _)
  | succ bound ih =>
    intro i hi hlt
    obtain ⟨n, hn⟩ := exists_node? hlt
    cases ho : n.owner with
    | none => exact ⟨i, mem_roots.mpr ⟨n, hn, ho⟩, .refl⟩
    | some p =>
      obtain ⟨hp, hdp⟩ := hg.upward ⟨n, hn, ho⟩
      obtain ⟨r, hr, hpr⟩ := ih p (by omega) hp
      exact ⟨r, hr, .head ⟨n, hn, ho⟩ hpr⟩

end Chains

end Graph

end CallVicinity
