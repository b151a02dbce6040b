import Mathlib.Order.Bounds.Defs
import CallVicinity.Proofs.Graph.Freeze

/-!
# Ids tell declarations apart

A declaration gets the id of its extent if that is free, else a number. Both ways look at the ids
that were given before, so that it does not matter how the two forms of ids are written, or that the
numbers are shared by all kinds:

> `Draft.record_ids`: recording adds one id, and it is a new one.

What has to be shown of the numbers is that the search for a free one ends. Different numbers give
different ids, and only finitely many ids are in use (`Draft.freeNumber_isLeast`,
`Draft.freeNumber_le`). Then the ids of a draft stay distinct from pass to pass, freezing only puts
them in another order (`Draft.freeze_ids_perm`), and in a graph with distinct ids an id is looked up
exactly where it stands (`Graph.indexOf?_eq_some`), from whichever end one looks
(`Graph.lastIndexOf?_eq_some`): a table of ids in which later entries replace earlier ones loses
nothing.
-/

namespace CallVicinity

namespace Draft

/-! ## The search for a free number -/

/-- The digits of a number can be read back. -/
theorem repr_injective : Function.Injective Nat.repr := by
  intro m n h
  have hread := congrArg (fun digits : String => Nat.ofDigitChars 10 digits.toList 0) h
  simpa using hread

theorem numberId_injective (kind : DeclKind) : Function.Injective (numberId kind) := by
  intro m n h
  unfold numberId at h
  exact repr_injective ((String.append_right_inj _).mp h)

/-- Dropping the id of `n` from the used ones changes nothing for the numbers after `n`. -/
theorem numberId_mem_erase {kind : DeclKind} {used : List String} {n k : Nat} (hk : n < k) :
    numberId kind k ∈ used.erase (numberId kind n) ↔ numberId kind k ∈ used := by
  have hne : numberId kind k ≠ numberId kind n := by
    intro h
    have := numberId_injective kind h
    omega
  exact List.mem_erase_of_ne hne

/-- The search ends at the first number from `n` on whose id is free. -/
theorem freeNumber_isLeast (kind : DeclKind) (used : List String) (n : Nat) :
    IsLeast {k | n ≤ k ∧ numberId kind k ∉ used} (freeNumber kind used n) := by
  induction used, n using freeNumber.induct kind with
  | case1 used n h ih =>
    -- what is in use is looked up in fewer and fewer ids, but all later ones are among them
    rw [freeNumber, dif_pos h]
    obtain ⟨⟨hle, hfree⟩, hleast⟩ := ih
    refine ⟨⟨by omega, ?_⟩, ?_⟩
    · rw [numberId_mem_erase (by omega)] at hfree
      exact hfree
    · intro k hk
      obtain ⟨hnk, hkfree⟩ := hk
      have hne : n ≠ k := by
        intro he
        rw [he] at h
        exact hkfree h
      have hlt : n < k := by omega
      refine hleast ⟨hlt, ?_⟩
      rw [numberId_mem_erase hlt]
      exact hkfree
  | case2 used n h =>
    rw [freeNumber, dif_neg h]
    exact ⟨⟨Nat.le_refl n, h⟩, fun k hk => hk.1⟩

/-- The search takes at most one step for each used id. -/
theorem freeNumber_le (kind : DeclKind) (used : List String) (n : Nat) :
    freeNumber kind used n ≤ n + used.length := by
  induction used, n using freeNumber.induct kind with
  | case1 used n h ih =>
    rw [freeNumber, dif_pos h]
    have hlen := List.length_erase_of_mem h
    have hpos := List.length_pos_of_mem h
    omega
  | case2 used n h =>
    rw [freeNumber, dif_neg h]
    exact Nat.le_add_right _ _

/-! ## The ids of a draft -/

theorem spanId?_not_mem {d : Draft} {source : List Char} {l : Label} {kind : DeclKind} {id : String}
    (h : d.spanId? source l kind = some id) : id ∉ d.ids := by
  unfold spanId? at h
  split at h
  next => exact absurd h (by simp)
  next =>
    dsimp only at h
    split at h
    next => exact absurd h (by simp)
    next hfree =>
      rw [← Option.some.inj h]
      exact hfree

theorem ids_of_push {d d' : Draft} {r : Record} (h : d'.records = d.records.push r) :
    d'.ids = d.ids ++ [r.id] := by
  unfold ids
  rw [h, Array.toList_push, List.map_append]
  rfl

/-- Recording adds one id, and it is a new one. -/
theorem record_ids (d : Draft) (source : List Char) (s : Site) (h : Heading) :
    ∃ id, (d.record source s h).ids = d.ids ++ [id] ∧ id ∉ d.ids := by
  unfold record
  split
  next id hid =>
    exact ⟨_, ids_of_push rfl, spanId?_not_mem hid⟩
  next =>
    exact ⟨_, ids_of_push rfl, (freeNumber_isLeast h.kind d.ids (d.numbered + 1)).1.2⟩

theorem record_ids_nodup {d : Draft} {source : List Char} {s : Site} {h : Heading}
    (hd : d.ids.Nodup) : (d.record source s h).ids.Nodup := by
  obtain ⟨id, hids, hfresh⟩ := d.record_ids source s h
  rw [hids]
  refine List.nodup_append.mpr ⟨hd, List.nodup_singleton _, ?_⟩
  intro a ha b hb hab
  rw [hab, List.mem_singleton.mp hb] at ha
  exact hfresh ha

theorem linkOwners_ids (d : Draft) : d.linkOwners.ids = d.ids := by
  unfold ids linkOwners
  rw [Array.toList_map, List.map_map]
  rfl

theorem linkCalls_ids (d : Draft) (source : List Char) (sites : List Site) :
    (d.linkCalls source sites).1.ids = d.ids :=
  map_of_bare (fun _ => rfl) (d.linkCalls_bare source sites)

theorem run_ids_nodup {d : Draft} {sites : List Site} {source : List Char} (hd : d.ids.Nodup) :
    ∀ p : Pass, (d.run source sites p).ids.Nodup
  | .classes =>
    recordAll_keeps (P := fun d' => d'.ids.Nodup) (fun _ _ _ _ hd' => record_ids_nodup hd') hd
  | .functions =>
    recordAll_keeps (P := fun d' => d'.ids.Nodup) (fun _ _ _ _ hd' => record_ids_nodup hd') hd
  | .ownership => by
    show d.linkOwners.ids.Nodup
    rw [linkOwners_ids]
    exact hd
  | .calls => by
    show (d.linkCalls source sites).1.ids.Nodup
    rw [linkCalls_ids]
    exact hd

theorem runAll_ids_nodup {sites : List Site} {source : List Char} :
    ∀ (passes : List Pass) {d : Draft}, d.ids.Nodup →
      (d.runAll source sites passes).ids.Nodup := by
  intro passes
  induction passes with
  | nil => intro d hd; exact hd
  | cons p passes ih =>
    intro d hd
    exact ih (run_ids_nodup hd p)

end Draft

/-! ## The ids of a graph -/

/-- The ids of the declarations, in source order. -/
def Graph.ids (g : Graph) : List String :=
  g.nodes.toList.map (·.id)

theorem Graph.getElem?_ids {g : Graph} {i : Nat} : g.ids[i]? = (g.node? i).map (·.id) := by
  unfold ids node?
  rw [List.getElem?_map, Array.getElem?_toList]

/-- The index of the last declaration with an id, as in a table where later entries replace earlier
ones. -/
def Graph.lastIndexOf? (g : Graph) (id : String) : Option Nat :=
  (g.nodes.toList.zipIdx.reverse.find? fun n => n.1.id == id).map (·.2)

section Distinct

variable {g : Graph} (hg : g.ids.Nodup)
include hg

theorem Graph.eq_of_same_id {i j : Nat} {n m : Declaration} (hn : g.node? i = some n)
    (hm : g.node? j = some m) (h : n.id = m.id) : i = j := by
  have hi : g.ids[i]? = some n.id := by
    rw [getElem?_ids, hn]
    rfl
  have hj : g.ids[j]? = some n.id := by
    rw [getElem?_ids, hm, h]
    rfl
  have hlt := (List.getElem?_eq_some_iff.mp hi).1
  exact (List.getElem?_inj hlt hg).mp (hi.trans hj.symm)

/-- An id is looked up exactly where it stands. -/
theorem Graph.indexOf?_eq_some {id : String} {i : Nat} :
    g.indexOf? id = some i ↔ ∃ n, g.node? i = some n ∧ n.id = id := by
  unfold indexOf?
  rw [Array.findIdx?_eq_some_iff_getElem]
  constructor
  · intro h
    obtain ⟨hi, hid, -⟩ := h
    exact ⟨g.nodes[i], Array.getElem?_eq_getElem hi, eq_of_beq hid⟩
  · intro h
    obtain ⟨n, hn, rfl⟩ := h
    obtain ⟨hi, rfl⟩ := Array.getElem?_eq_some_iff.mp hn
    refine ⟨hi, beq_self_eq_true _, ?_⟩
    intro j hj hid
    have hm : g.node? j = some g.nodes[j] := Array.getElem?_eq_getElem (by omega)
    have := eq_of_same_id hg hm hn (eq_of_beq hid)
    omega

/-- Looked up from the end, an id is found in the same place. -/
theorem Graph.lastIndexOf?_eq_some {id : String} {i : Nat} :
    g.lastIndexOf? id = some i ↔ ∃ n, g.node? i = some n ∧ n.id = id := by
  have hstands : ∀ {n : Declaration} {k : Nat},
      (n, k) ∈ g.nodes.toList.zipIdx.reverse ↔ g.node? k = some n := by
    intro n k
    rw [List.mem_reverse, List.mk_mem_zipIdx_iff_getElem?, Array.getElem?_toList]
    rfl
  unfold lastIndexOf?
  rw [Option.map_eq_some_iff]
  constructor
  · intro h
    obtain ⟨⟨n, k⟩, hfind, rfl⟩ := h
    have hid := List.find?_some hfind
    exact ⟨n, hstands.mp (List.mem_of_find?_eq_some hfind), eq_of_beq hid⟩
  · intro h
    obtain ⟨n, hn, rfl⟩ := h
    have hsome : (g.nodes.toList.zipIdx.reverse.find? fun m => m.1.id == n.id).isSome := by
      rw [List.find?_isSome]
      exact ⟨(n, i), hstands.mpr hn, beq_self_eq_true _⟩
    obtain ⟨⟨m, k⟩, hfind⟩ := Option.isSome_iff_exists.mp hsome
    have hm := hstands.mp (List.mem_of_find?_eq_some hfind)
    have hid := List.find?_some hfind
    exact ⟨(m, k), hfind, eq_of_same_id hg hm hn (eq_of_beq hid)⟩

end Distinct

namespace Draft

/-- Freezing puts the ids of the records in another order and leaves none out. -/
theorem freeze_ids_perm (d : Draft) (source : List Char) : (d.freeze source).ids.Perm d.ids := by
  have hids : (d.freeze source).ids = d.ordered.map (·.1.id) := by
    refine List.ext_getElem? fun i => ?_
    rw [Graph.getElem?_ids, freeze_node?, List.getElem?_map, Option.map_map]
    rfl
  have hrecords : d.ids = d.records.toList.zipIdx.map (·.1.id) := by
    unfold ids
    rw [← List.zipIdx_map_fst 0 d.records.toList, List.map_map, List.zipIdx_map_fst]
    rfl
  rw [hids, hrecords]
  exact d.ordered_perm.map _

/-- **Ids tell declarations apart after any passes.** Whatever passes were run over a tree, no two
declarations of the frozen graph have the same id, and an id is looked up exactly where it stands,
from whichever end. Making up an id takes at most one step for each id in use and ends at the first
number that is free, whatever ids are in use and wherever the search begins. -/
theorem runAll_ids_distinct (source : List Char) (tree : Node) (passes : List Pass) :
    let g := (Draft.empty.runAll source tree.sites passes).freeze source
    (∀ i j n m, g.node? i = some n → g.node? j = some m → i ≠ j → n.id ≠ m.id) ∧
    (∀ id i, g.indexOf? id = some i ↔ ∃ n, g.node? i = some n ∧ n.id = id) ∧
    (∀ id, g.indexOf? id = g.lastIndexOf? id) ∧
    ∀ kind used n, IsLeast {k | n ≤ k ∧ numberId kind k ∉ used} (freeNumber kind used n) ∧
      freeNumber kind used n ≤ n + used.length := by
  intro g
  have hdraft : (Draft.empty.runAll source tree.sites passes).ids.Nodup :=
    runAll_ids_nodup passes List.nodup_nil
  have hg : g.ids.Nodup := ((freeze_ids_perm _ source).nodup_iff).mpr hdraft
  refine ⟨?_, fun id i => Graph.indexOf?_eq_some hg, ?_,
    fun kind used n => ⟨freeNumber_isLeast kind used n, freeNumber_le kind used n⟩⟩
  · intro i j n m hn hm hij hid
    exact hij (Graph.eq_of_same_id hg hn hm hid)
  · intro id
    refine Option.ext fun i => ?_
    rw [Graph.indexOf?_eq_some hg, Graph.lastIndexOf?_eq_some hg]

end Draft

end CallVicinity
