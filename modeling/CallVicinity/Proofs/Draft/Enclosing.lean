import Mathlib.Data.List.Induction
import CallVicinity.Draft.Pass
import CallVicinity.Proofs.Lists
import CallVicinity.Proofs.Tree.Sites

/-!
# The declaration around an address

What a draft says about nesting depends only on its *entries*: the sites and headings of its
records, by slot. Ids, owners and edges do not matter for it. This file describes `Draft.enclosing?`
by the entries alone:

> `Draft.enclosing?_eq_some`: the declaration around an address is the deepest recorded function,
> arrow or method above it, and the deepest recorded class where there is none.

A node that was recorded twice stands for its latest record (`Draft.Stands`), so the description
holds for drafts that were filled in any way, not only for those of the usual passes.
-/

namespace CallVicinity

namespace Draft

/-! ## Entries -/

/-- What was recorded, by slot: the site and the heading. -/
def entries (d : Draft) : List (Site × Heading) :=
  d.records.toList.map fun r => (r.site, r.heading)

theorem getElem?_entries {d : Draft} {slot : Nat} :
    d.entries[slot]? = d.records[slot]?.map fun r => (r.site, r.heading) := by
  rw [entries, List.getElem?_map, Array.getElem?_toList]

theorem length_entries (d : Draft) : d.entries.length = d.records.size := by
  rw [entries, List.length_map, Array.length_toList]

theorem recorded_eq (d : Draft) :
    d.recorded = (d.entries.zipIdx.map fun e => (e.1.1.address, e.2)).reverse := by
  rw [recorded, entries, List.zipIdx_map, List.map_map]
  rfl

theorem kindAt?_eq {d : Draft} {slot : Nat} :
    d.kindAt? slot = d.entries[slot]?.map (·.2.kind) := by
  rw [kindAt?, getElem?_entries, Option.map_map]
  rfl

theorem mem_slotsNamed {d : Draft} {name : String} {slot : Nat} :
    slot ∈ d.slotsNamed name ↔ ∃ e, d.entries[slot]? = some e ∧ e.2.name = name := by
  rw [slotsNamed, mem_map_snd_filter_zipIdx, getElem?_entries, Array.getElem?_toList]
  constructor
  · intro h
    obtain ⟨r, hr, hname⟩ := h
    exact ⟨_, by rw [hr]; rfl, by simpa using hname⟩
  · intro h
    obtain ⟨e, he, hname⟩ := h
    obtain ⟨r, hr, rfl⟩ := Option.map_eq_some_iff.mp he
    exact ⟨r, hr, by simpa using hname⟩

/-! ## The latest record of a node -/

/-- Slot `slot` holds the latest record of the node at address `b`. -/
def Stands (d : Draft) (slot : Nat) (b : Address) : Prop :=
  (∃ e, d.entries[slot]? = some e ∧ e.1.address = b) ∧
    ∀ later e, d.entries[later]? = some e → e.1.address = b → later ≤ slot

/-- Looking up an address gives the slot of its latest record. -/
theorem lookup_recorded {d : Draft} {b : Address} {slot : Nat} :
    d.recorded.lookup b = some slot ↔ d.Stands slot b := by
  rw [recorded_eq]
  unfold Stands
  generalize d.entries = es
  -- the table is read from its end, so the induction adds entries at the end
  induction es using List.reverseRecOn with
  | nil => simp
  | append_singleton es e ih =>
    have htable : ((es ++ [e]).zipIdx.map fun e => (e.1.1.address, e.2)).reverse
        = (e.1.address, es.length) :: (es.zipIdx.map fun e => (e.1.1.address, e.2)).reverse := by
      simp [List.zipIdx_append]
    rw [htable, List.lookup_cons]
    have hlen : ∀ {k : Nat} {f : Site × Heading}, (es ++ [e])[k]? = some f → k ≤ es.length := by
      intro k f hf
      have hlt := (List.getElem?_eq_some_iff.mp hf).1
      rw [List.length_append, List.length_singleton] at hlt
      omega
    by_cases hb : b = e.1.address
    · -- the last entry is for `b`, and nothing is later than it
      rw [beq_iff_eq.mpr hb]
      show some es.length = some slot ↔ _
      rw [Option.some.injEq]
      constructor
      · intro hslot
        rw [← hslot]
        exact ⟨⟨e, List.getElem?_concat_length, hb.symm⟩, fun later f hf _ => hlen hf⟩
      · intro h
        obtain ⟨⟨f, hf, _⟩, hlast⟩ := h
        have hle := hlast es.length e List.getElem?_concat_length hb.symm
        exact Nat.le_antisymm hle (hlen hf)
    · rw [beq_eq_false_iff_ne.mpr hb]
      show List.lookup b _ = some slot ↔ _
      rw [ih]
      -- an entry with another address does not matter for `b`
      have hold : ∀ {k : Nat} {f : Site × Heading}, f.1.address = b →
          ((es ++ [e])[k]? = some f ↔ es[k]? = some f) :=
        fun hf => getElem?_concat_of_ne fun hfe => hb (by rw [← hf, hfe])
      constructor
      · intro h
        obtain ⟨⟨f, hf, hfb⟩, hlast⟩ := h
        exact ⟨⟨f, (hold hfb).mpr hf, hfb⟩, fun k g hg hgb => hlast k g ((hold hgb).mp hg) hgb⟩
      · intro h
        obtain ⟨⟨f, hf, hfb⟩, hlast⟩ := h
        exact ⟨⟨f, (hold hfb).mp hf, hfb⟩, fun k g hg hgb => hlast k g ((hold hgb).mpr hg) hgb⟩

/-! ## The deepest record above an address -/

/-- Of the values that addresses have, listed from the deepest on, the first one with a property
belongs to the deepest address that has such a value. -/
theorem find?_filterMap_deepest {f : Address → Option Nat} {p : Nat → Bool} {x : Nat} :
    ∀ {bs : List Address}, bs.Pairwise (fun b c => c.length < b.length) →
      ((bs.filterMap f).find? p = some x ↔
        ∃ b ∈ bs, f b = some x ∧ p x = true ∧
          ∀ c ∈ bs, ∀ y, f c = some y → p y = true → c.length ≤ b.length) := by
  intro bs
  induction bs with
  | nil => intro _; simp
  | cons b bs ih =>
    intro hpw
    obtain ⟨hb, hbs⟩ := List.pairwise_cons.mp hpw
    by_cases hv : ∃ z, f b = some z ∧ p z = true
    · -- `b` is deeper than all the others, and its value comes first
      obtain ⟨z, hfb, hpz⟩ := hv
      rw [List.filterMap_cons_some hfb, List.find?_cons_of_pos hpz]
      constructor
      · intro hz
        obtain rfl := Option.some.inj hz
        refine ⟨b, List.mem_cons_self, hfb, hpz, ?_⟩
        intro c hc y _ _
        rcases List.mem_cons.mp hc with rfl | hc
        · exact Nat.le_refl _
        · exact Nat.le_of_lt (hb c hc)
      · intro h
        obtain ⟨c, hc, hfc, -, hdeep⟩ := h
        have hle := hdeep b List.mem_cons_self z hfb hpz
        rcases List.mem_cons.mp hc with rfl | hc
        · rw [← hfb, hfc]
        · have := hb c hc
          omega
    · have hskip : ((b :: bs).filterMap f).find? p = (bs.filterMap f).find? p := by
        cases hfb : f b with
        | none => rw [List.filterMap_cons_none hfb]
        | some z =>
          rw [List.filterMap_cons_some hfb, List.find?_cons_of_neg fun hz => hv ⟨z, hfb, hz⟩]
      rw [hskip, ih hbs]
      constructor
      · intro h
        obtain ⟨c, hc, hfc, hp, hdeep⟩ := h
        refine ⟨c, List.mem_cons_of_mem _ hc, hfc, hp, ?_⟩
        intro c' hc' y hy hpy
        rcases List.mem_cons.mp hc' with rfl | hc'
        · exact absurd ⟨y, hy, hpy⟩ hv
        · exact hdeep c' hc' y hy hpy
      · intro h
        obtain ⟨c, hc, hfc, hp, hdeep⟩ := h
        rcases List.mem_cons.mp hc with rfl | hc
        · exact absurd ⟨x, hfc, hp⟩ hv
        · exact ⟨c, hc, hfc, hp, fun c' hc' => hdeep c' (List.mem_cons_of_mem _ hc')⟩

/-- `slot` stands for a node above address `a` such that no node above `a` with property `p` is
deeper. -/
def DeepestAbove (d : Draft) (p : Nat → Prop) (a : Address) (slot : Nat) : Prop :=
  ∃ b ∈ a.above, d.Stands slot b ∧ p slot ∧
    ∀ c ∈ a.above, ∀ other, d.Stands other c → p other → c.length ≤ b.length

/-- Only what holds of the records above an address matters for which of them is the deepest. -/
theorem DeepestAbove.imp {d : Draft} {p q : Nat → Prop} {a : Address} {slot : Nat}
    (h : d.DeepestAbove p a slot)
    (hpq : ∀ b ∈ a.above, ∀ k, d.Stands k b → (p k ↔ q k)) : d.DeepestAbove q a slot := by
  obtain ⟨b, hb, hstands, hp, hdeep⟩ := h
  refine ⟨b, hb, hstands, (hpq b hb slot hstands).mp hp, ?_⟩
  intro c hc other hother hq
  exact hdeep c hc other hother ((hpq c hc other hother).mpr hq)

/-- **The declaration around an address**: the deepest recorded function, arrow or method above it,
or the deepest recorded class where all that is recorded above it are classes. -/
theorem enclosing?_eq_some {d : Draft} {a : Address} {slot : Nat} :
    d.enclosing? a = some slot ↔
      d.DeepestAbove (fun k => d.kindAt? k ≠ some .classDef) a slot ∨
        (∀ b ∈ a.above, ∀ k, d.Stands k b → d.kindAt? k = some .classDef) ∧
          d.DeepestAbove (fun k => d.kindAt? k = some .classDef) a slot := by
  have hfirst : ∀ p : Nat → Bool, ((d.slotsAbove a).find? p = some slot ↔
      d.DeepestAbove (fun k => p k = true) a slot) := by
    intro p
    unfold slotsAbove DeepestAbove
    rw [find?_filterMap_deepest (Address.above_deepest_first a)]
    simp only [lookup_recorded]
  have hhead : (d.slotsAbove a).head? = (d.slotsAbove a).find? fun _ => true := by
    cases d.slotsAbove a <;> rfl
  have hnone : (d.slotsAbove a).find? (fun k => d.kindAt? k != some .classDef) = none ↔
      ∀ b ∈ a.above, ∀ k, d.Stands k b → d.kindAt? k = some .classDef := by
    rw [List.find?_eq_none]
    unfold slotsAbove
    constructor
    · intro h b hb k hk
      have := h k (List.mem_filterMap.mpr ⟨b, hb, lookup_recorded.mpr hk⟩)
      simpa using this
    · intro h k hk
      obtain ⟨b, hb, hbk⟩ := List.mem_filterMap.mp hk
      simpa using h b hb k (lookup_recorded.mp hbk)
  unfold enclosing?
  rw [Option.or_eq_some_iff, hnone, hhead, hfirst, hfirst]
  simp only [bne_iff_ne]
  refine or_congr_right (and_congr_right fun hall => ?_)
  -- where all are classes, the deepest of all is the deepest class
  have hclass : ∀ b ∈ a.above, ∀ k, d.Stands k b →
      (True ↔ d.kindAt? k = some .classDef) :=
    fun b hb k hk => iff_of_true trivial (hall b hb k hk)
  exact ⟨fun h => h.imp hclass, fun h => h.imp fun b hb k hk => (hclass b hb k hk).symm⟩

/-- Where a node above an address is recorded, some declaration is around the address. -/
theorem exists_enclosing? {d : Draft} {a b : Address} {slot : Nat} (hb : b ∈ a.above)
    (h : d.Stands slot b) : ∃ o, d.enclosing? a = some o := by
  have hmem : slot ∈ d.slotsAbove a :=
    List.mem_filterMap.mpr ⟨b, hb, lookup_recorded.mpr h⟩
  obtain ⟨o, slots, hslots⟩ := List.exists_cons_of_ne_nil (List.ne_nil_of_mem hmem)
  refine Option.isSome_iff_exists.mp ?_
  unfold enclosing?
  simp [hslots]

/-- The declaration around an address is recorded, at an address above. -/
theorem enclosing?_above {d : Draft} {a : Address} {slot : Nat} (h : d.enclosing? a = some slot) :
    ∃ e, d.entries[slot]? = some e ∧ e.1.address ∈ a.above := by
  rcases enclosing?_eq_some.mp h with hdeep | ⟨-, hdeep⟩ <;>
  · obtain ⟨b, hb, ⟨⟨e, he, rfl⟩, -⟩, -⟩ := hdeep
    exact ⟨e, he, hb⟩

end Draft

end CallVicinity
