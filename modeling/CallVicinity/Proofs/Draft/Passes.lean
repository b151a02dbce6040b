import CallVicinity.Proofs.Draft.Edges

/-!
# What the passes keep

Passes can be run in any order and any number of times. Whatever the order, a draft stays *lawful*:

> `Draft.Lawful`: every record is at a site of the tree, every owner is a recorded node above the
> declaration that it owns, and the calls and the callers of the records are paired.

`Draft.run_lawful` proves it of one pass and `Draft.runAll_lawful` of a whole run. Beside it stands
what a pass does to the entries: the recording passes add the sites that have a heading, in the
order of the tree (`Draft.recordAll_entries`), and the linking passes leave the entries alone. So
the edges that a pass finds depend on the entries only (`Draft.edgesAt_congr`).
-/

namespace CallVicinity

namespace Draft

/-! ## Recording -/

/-- Recording puts one more record at the end, which has no edges. -/
theorem record_push (d : Draft) (source : List Char) (s : Site) (h : Heading) :
    ∃ id, (d.record source s h).records = d.records.push ⟨s, id, h, none, ∅, ∅⟩ := by
  unfold record
  split
  next id _ => exact ⟨id, rfl⟩
  next => exact ⟨_, rfl⟩

theorem record_entries (d : Draft) (source : List Char) (s : Site) (h : Heading) :
    (d.record source s h).entries = d.entries ++ [(s, h)] := by
  obtain ⟨id, hrec⟩ := d.record_push source s h
  unfold entries
  rw [hrec, Array.toList_push, List.map_append]
  rfl

/-- The old slots stay as they are when a site is recorded. -/
theorem record_getElem? {d : Draft} {source : List Char} {s : Site} {h : Heading} {k : Nat}
    {r : Record} (hk : d.records[k]? = some r) :
    (d.record source s h).records[k]? = some r := by
  obtain ⟨id, hrec⟩ := d.record_push source s h
  have hlt := (Array.getElem?_eq_some_iff.mp hk).1
  rw [hrec, Array.getElem?_push, if_neg (by omega)]
  exact hk

/-- Recording leaves the edges alone, on either side. -/
theorem record_lists {d : Draft} {source : List Char} {s : Site} {h : Heading}
    {side : Record → IndexSet} (hside : ∀ id, side ⟨s, id, h, none, ∅, ∅⟩ = ∅) {a b : Nat} :
    (d.record source s h).Lists side a b ↔ d.Lists side a b := by
  constructor
  · intro hl
    obtain ⟨r, hr, hb⟩ := hl
    obtain ⟨id, hrec⟩ := d.record_push source s h
    rw [hrec, Array.getElem?_push] at hr
    split at hr
    next =>
      rw [← Option.some.inj hr, hside] at hb
      exact absurd hb (IndexSet.not_mem_empty b)
    next => exact ⟨r, hr, hb⟩
  · intro hl
    obtain ⟨r, hr, hb⟩ := hl
    exact ⟨r, record_getElem? hr, hb⟩

theorem record_callCount (d : Draft) (source : List Char) (s : Site) (h : Heading) :
    (d.record source s h).callCount = d.callCount := by
  obtain ⟨id, hrec⟩ := d.record_push source s h
  unfold callCount
  rw [hrec, Array.toList_push, List.foldr_append]
  rfl

/-- The sites with a heading, each with it. -/
def headed (heading? : Site → Option Heading) (sites : List Site) : List (Site × Heading) :=
  sites.filterMap fun s => (heading? s).map fun h => (s, h)

section Headed

variable {heading? : Site → Option Heading}

theorem headed_cons_none {s : Site} {sites : List Site} (hs : heading? s = none) :
    headed heading? (s :: sites) = headed heading? sites :=
  List.filterMap_cons_none (by rw [hs]; rfl)

theorem headed_cons_some {s : Site} {sites : List Site} {h : Heading} (hs : heading? s = some h) :
    headed heading? (s :: sites) = (s, h) :: headed heading? sites :=
  List.filterMap_cons_some (by rw [hs]; rfl)

theorem mem_headed {sites : List Site} {e : Site × Heading} :
    e ∈ headed heading? sites ↔ e.1 ∈ sites ∧ heading? e.1 = some e.2 := by
  unfold headed
  rw [List.mem_filterMap]
  constructor
  · intro h
    obtain ⟨s, hs, hmap⟩ := h
    obtain ⟨h', hh, rfl⟩ := Option.map_eq_some_iff.mp hmap
    exact ⟨hs, hh⟩
  · intro h
    exact ⟨e.1, h.1, by rw [h.2]; rfl⟩

/-- The sites with a heading are some of the sites, in their order. -/
theorem headed_sublist (heading? : Site → Option Heading) :
    ∀ sites : List Site, ((headed heading? sites).map (·.1)).Sublist sites := by
  intro sites
  induction sites with
  | nil => exact List.Sublist.refl _
  | cons s sites ih =>
    cases hs : heading? s with
    | none =>
      rw [headed_cons_none hs]
      exact ih.cons _
    | some h =>
      rw [headed_cons_some hs, List.map_cons]
      exact ih.cons_cons _

end Headed

/-- A recording pass records the sites that have a heading, one after the other. -/
theorem recordAll_eq {source : List Char} {heading? : Site → Option Heading} :
    ∀ (sites : List Site) (d : Draft), d.recordAll source heading? sites
      = (headed heading? sites).foldl (fun d e => d.record source e.1 e.2) d := by
  intro sites
  induction sites with
  | nil => intro d; rfl
  | cons s sites ih =>
    intro d
    unfold recordAll at ih ⊢
    rw [List.foldl_cons, ih]
    cases hs : heading? s with
    | none => rw [headed_cons_none hs]
    | some h => rw [headed_cons_some hs, List.foldl_cons]

/-- What recording one site keeps, a recording pass keeps. -/
theorem recordAll_keeps {source : List Char} {heading? : Site → Option Heading} {P : Draft → Prop}
    {sites : List Site} (hstep : ∀ d, ∀ s ∈ sites, ∀ h, P d → P (d.record source s h)) {d : Draft}
    (hd : P d) : P (d.recordAll source heading? sites) := by
  rw [recordAll_eq]
  refine List.foldlRecOn _ _ hd ?_
  intro d' hd' e he
  exact hstep d' e.1 (mem_headed.mp he).1 e.2 hd'

theorem recordAll_entries {source : List Char} {heading? : Site → Option Heading}
    (sites : List Site) (d : Draft) :
    (d.recordAll source heading? sites).entries = d.entries ++ headed heading? sites := by
  rw [recordAll_eq]
  generalize headed heading? sites = es
  induction es generalizing d with
  | nil => rw [List.append_nil]; rfl
  | cons e es ih =>
    rw [List.foldl_cons, ih, record_entries, List.append_assoc]
    rfl

theorem recordAll_callCount {source : List Char} {heading? : Site → Option Heading}
    (sites : List Site) (d : Draft) :
    (d.recordAll source heading? sites).callCount = d.callCount := by
  refine recordAll_keeps (P := fun d' => d'.callCount = d.callCount) ?_ rfl
  intro d' s _ h hd'
  rw [record_callCount, hd']

/-! ## Linking -/

theorem linkOwners_entries (d : Draft) : d.linkOwners.entries = d.entries := by
  unfold entries linkOwners
  rw [Array.toList_map, List.map_map]
  rfl

/-- Linking owners leaves the edges alone, on either side. -/
theorem linkOwners_lists {d : Draft} {side : Record → IndexSet}
    (hside : ∀ (r : Record) o, side { r with owner := o } = side r) {a b : Nat} :
    d.linkOwners.Lists side a b ↔ d.Lists side a b := by
  unfold Lists linkOwners
  rw [Array.getElem?_map]
  simp only [Option.map_eq_some_iff, exists_exists_and_eq_and, hside]

theorem linkOwners_callCount (d : Draft) : d.linkOwners.callCount = d.callCount := by
  unfold callCount linkOwners
  rw [Array.toList_map, List.foldr_map]

/-- The pass over the calls changes nothing but the calls and the callers. -/
theorem linkCalls_bare (d : Draft) (source : List Char) (sites : List Site) :
    (d.linkCalls source sites).1.bare = d.bare :=
  foldl_addEdge_bare _ _

theorem linkCalls_entries (d : Draft) (source : List Char) (sites : List Site) :
    (d.linkCalls source sites).1.entries = d.entries :=
  map_of_bare (fun _ => rfl) (d.linkCalls_bare source sites)

/-- The declaration around an address depends on the entries only. -/
theorem enclosing?_congr {d d' : Draft} (h : d.entries = d'.entries) (a : Address) :
    d.enclosing? a = d'.enclosing? a := by
  have hrec : d.recorded = d'.recorded := by rw [recorded_eq, recorded_eq, h]
  have hkind : d.kindAt? = d'.kindAt? := by
    funext slot
    rw [kindAt?_eq, kindAt?_eq, h]
  unfold enclosing? slotsAbove
  rw [hrec, hkind]

/-- The edges of a call depend on the entries only. -/
theorem edgesAt_congr {d d' : Draft} (h : d.entries = d'.entries) (source : List Char) (s : Site) :
    d.edgesAt source s = d'.edgesAt source s := by
  have hnamed : d.slotsNamed = d'.slotsNamed := by
    funext name
    -- both lists ascend, so that they are equal if they have the same members
    refine IndexSet.ascending_ext (map_snd_filter_zipIdx_ascending _ _)
      (map_snd_filter_zipIdx_ascending _ _) fun slot => ?_
    show slot ∈ d.slotsNamed name ↔ slot ∈ d'.slotsNamed name
    rw [mem_slotsNamed, mem_slotsNamed, h]
  unfold edgesAt
  rw [enclosing?_congr h, hnamed]

/-- An edge of a call goes from the declaration around it to one with the name that it refers to. -/
theorem mem_edgesAt {d : Draft} {source : List Char} {s : Site} {caller callee : Nat} :
    (caller, callee) ∈ d.edgesAt source s ↔
      ∃ name, s.callKey? source = some name ∧ d.enclosing? s.address = some caller ∧
        ∃ e, d.entries[callee]? = some e ∧ e.2.name = name := by
  unfold edgesAt
  constructor
  · intro hmem
    split at hmem
    next => exact absurd hmem List.not_mem_nil
    next name hname =>
      split at hmem
      next => exact absurd hmem List.not_mem_nil
      next slot hslot =>
        obtain ⟨k, hk, hpair⟩ := List.mem_map.mp hmem
        obtain ⟨rfl, rfl⟩ := Prod.mk.inj hpair
        exact ⟨name, hname, hslot, mem_slotsNamed.mp hk⟩
  · intro h
    obtain ⟨name, hname, hslot, he⟩ := h
    rw [hname, hslot]
    exact List.mem_map.mpr ⟨callee, mem_slotsNamed.mpr he, rfl⟩

/-- The edges that the pass over the calls adds join recorded slots. -/
theorem lt_size_of_mem_edgesAt {d : Draft} {source : List Char} {sites : List Site} :
    ∀ e ∈ sites.flatMap (d.edgesAt source), e.1 < d.records.size ∧ e.2 < d.records.size := by
  intro e he
  obtain ⟨s, -, hes⟩ := List.mem_flatMap.mp he
  obtain ⟨name, -, hcaller, f, hcallee, -⟩ := mem_edgesAt.mp hes
  obtain ⟨f', hcaller, -⟩ := enclosing?_above hcaller
  rw [← length_entries]
  exact ⟨(List.getElem?_eq_some_iff.mp hcaller).1, (List.getElem?_eq_some_iff.mp hcallee).1⟩

/-- The edges after the pass over the calls. -/
theorem linkCalls_calls {d : Draft} {source : List Char} {sites : List Site} {a b : Nat} :
    (d.linkCalls source sites).1.Calls a b ↔
      d.Calls a b ∨ ∃ s ∈ sites, (a, b) ∈ d.edgesAt source s := by
  unfold linkCalls
  rw [foldl_addEdge_calls _ _ lt_size_of_mem_edgesAt, List.mem_flatMap]

/-- The pass over the calls reports by how much the calls grow. -/
theorem linkCalls_callCount (d : Draft) (source : List Char) (sites : List Site) :
    (d.linkCalls source sites).1.callCount = d.callCount + (d.linkCalls source sites).2 := by
  have hin : ∀ e ∈ sites.flatMap (d.edgesAt source),
      e.1 < (d, 0).1.records.size ∧ e.2 < (d, 0).1.records.size := lt_size_of_mem_edgesAt
  have hcount := foldl_addEdge_count hin
  unfold linkCalls
  dsimp only at hcount ⊢
  omega

/-! ## Lawful drafts -/

/-- A draft in which records, owners and edges fit together: records are at sites of the tree,
owners are recorded above what they own, and every edge is kept at both of its ends. -/
structure Lawful (d : Draft) (sites : List Site) : Prop where
  placed : ∀ e ∈ d.entries, e.1 ∈ sites
  owned : ∀ {slot o : Nat} {r : Record}, d.records[slot]? = some r → r.owner = some o →
    ∃ q, d.records[o]? = some q ∧ q.site.address ∈ r.site.address.above
  paired : d.Paired

theorem empty_lawful (sites : List Site) : empty.Lawful sites where
  placed := by intro e he; exact absurd he List.not_mem_nil
  owned := by intro slot o r hr; exact absurd hr (by simp [empty])
  paired := by
    intro s t
    exact iff_of_false (fun h => Nat.not_lt_zero s h.lt_size) fun h => Nat.not_lt_zero t h.lt_size

/-- Recording a site of the tree keeps a draft lawful: the old slots stay as they are, and the new
record has no owner and no edges yet. -/
theorem record_lawful {d : Draft} {sites : List Site} {source : List Char} {s : Site} {h : Heading}
    (hd : d.Lawful sites) (hs : s ∈ sites) : (d.record source s h).Lawful sites := by
  refine ⟨?_, ?_, ?_⟩
  · intro e he
    rw [record_entries] at he
    rcases List.mem_append.mp he with he | he
    · exact hd.placed e he
    · rw [List.mem_singleton.mp he]; exact hs
  · intro slot o r hr ho
    obtain ⟨id, hrec⟩ := d.record_push source s h
    rw [hrec, Array.getElem?_push] at hr
    split at hr
    next =>
      rw [← Option.some.inj hr] at ho
      exact absurd ho (by simp)
    next =>
      obtain ⟨q, hq, habove⟩ := hd.owned hr ho
      exact ⟨q, record_getElem? hq, habove⟩
  · intro a b
    exact (record_lists fun _ => rfl).trans ((hd.paired a b).trans (record_lists fun _ => rfl).symm)

theorem recordAll_lawful {source : List Char} {heading? : Site → Option Heading}
    {sites : List Site} {d : Draft} (hd : d.Lawful sites) :
    (d.recordAll source heading? sites).Lawful sites :=
  recordAll_keeps (P := fun d' => d'.Lawful sites) (fun _ _ hs _ hd' => record_lawful hd' hs) hd

/-- Linking owners keeps a draft lawful: a new owner is a recorded node above. -/
theorem linkOwners_lawful {d : Draft} {sites : List Site} (hd : d.Lawful sites) :
    d.linkOwners.Lawful sites := by
  refine ⟨by rw [linkOwners_entries]; exact hd.placed, ?_, ?_⟩
  · -- the owner that a record had before does not matter
    intro slot o r hr ho
    rw [linkOwners, Array.getElem?_map] at hr
    obtain ⟨r₀, hr₀, rfl⟩ := Option.map_eq_some_iff.mp hr
    obtain ⟨e, he, habove⟩ := enclosing?_above ho
    rw [getElem?_entries] at he
    obtain ⟨q, hq, rfl⟩ := Option.map_eq_some_iff.mp he
    exact ⟨{ q with owner := d.enclosing? q.site.address },
      by rw [linkOwners, Array.getElem?_map, hq]; rfl, habove⟩
  · intro a b
    exact (linkOwners_lists fun _ _ => rfl).trans
      ((hd.paired a b).trans (linkOwners_lists fun _ _ => rfl).symm)

/-- Adding call edges keeps a draft lawful: caller and callee are recorded. -/
theorem linkCalls_lawful {d : Draft} {sites : List Site} {source : List Char}
    (hd : d.Lawful sites) (ss : List Site) : (d.linkCalls source ss).1.Lawful sites := by
  have hbare := d.linkCalls_bare source ss
  refine ⟨by rw [linkCalls_entries]; exact hd.placed, ?_, ?_⟩
  · intro slot o r hr ho
    obtain ⟨r₀, hr₀, hsite, -, -, howner⟩ := exists_record_of_bare hbare hr
    rw [howner] at ho
    obtain ⟨q, hq, habove⟩ := hd.owned hr₀ ho
    obtain ⟨q', hq', hsite', -⟩ := exists_record_of_bare hbare.symm hq
    exact ⟨q', hq', by rw [hsite, ← hsite']; exact habove⟩
  · exact foldl_addEdge_paired lt_size_of_mem_edgesAt hd.paired

/-- **One pass keeps a draft lawful.** -/
theorem run_lawful {d : Draft} {sites : List Site} {source : List Char} (hd : d.Lawful sites) :
    ∀ p : Pass, (d.run source sites p).Lawful sites
  | .classes => recordAll_lawful hd
  | .functions => recordAll_lawful hd
  | .ownership => linkOwners_lawful hd
  | .calls => linkCalls_lawful hd sites

/-- **Every run of passes keeps a draft lawful.** -/
theorem runAll_lawful {sites : List Site} {source : List Char} :
    ∀ (passes : List Pass) {d : Draft}, d.Lawful sites →
      (d.runAll source sites passes).Lawful sites := by
  intro passes
  induction passes with
  | nil => intro d hd; exact hd
  | cons p passes ih =>
    intro d hd
    exact ih (run_lawful hd p)

end Draft

end CallVicinity
