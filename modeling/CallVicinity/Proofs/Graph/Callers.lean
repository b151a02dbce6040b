import CallVicinity.Proofs.Graph.CallEdges
import CallVicinity.Proofs.Tree.Callees

/-!
# Who calls whom

The graph of a tree has an edge from one declaration to another exactly if the tree holds a call
that refers to the name of the second and that belongs to the first:

> `Graph.build_calls`: the edges of the graph are the calls of the tree, attributed to the deepest
> function, arrow or method around them and, where there is none, to the deepest class.

In the usual run every site with a heading is recorded once (`Draft.built_entries`), so slots,
indexes and such sites correspond to each other and "the declaration around a call" can be said of
the graph and the tree alone (`Graph.IsCaller`).

What owns and calls what follows from what a draft is at the end (`Draft.Finished`): every site with
a heading is recorded, owners are what is around, edges are those of the calls. The usual run gets
there (`Draft.built_finished`), and it is not the only one that does.
-/

namespace CallVicinity

/-! ## What is recorded -/

/-- The heading under which a site is recorded: that of a class or of a function that is a
declaration. -/
def Site.heading? (source : List Char) (s : Site) : Option Heading :=
  (s.classHeading? source).or (s.functionHeading? source)

/-- A class is not a function. -/
theorem Site.functionHeading?_of_class {source : List Char} {s : Site} {h : Heading}
    (hs : s.classHeading? source = some h) : s.functionHeading? source = none := by
  unfold classHeading? at hs
  split at hs
  next hc =>
    unfold functionHeading?
    rw [hc]
  next => cases hs

/-- A site has a heading as a class or as a function. -/
theorem Site.heading?_eq_some {source : List Char} {s : Site} {h : Heading} :
    s.heading? source = some h ↔
      s.classHeading? source = some h ∨ s.functionHeading? source = some h := by
  unfold heading?
  rw [Option.or_eq_some_iff]
  constructor
  · intro hs
    rcases hs with hc | hf
    · exact Or.inl hc
    · exact Or.inr hf.2
  · intro hs
    rcases hs with hc | hf
    · exact Or.inl hc
    · refine Or.inr ⟨?_, hf⟩
      cases hc : s.classHeading? source with
      | none => rfl
      | some h' =>
        rw [Site.functionHeading?_of_class hc] at hf
        cases hf

namespace Draft

/-- The draft from which the graph of a tree is frozen. -/
def built (source : List Char) (tree : Node) : Draft :=
  Draft.empty.runAll source tree.sites Pass.usual

/-- The usual run records the classes, then the functions. -/
theorem built_entries (source : List Char) (tree : Node) :
    (built source tree).entries
      = headed (·.classHeading? source) tree.sites
        ++ headed (·.functionHeading? source) tree.sites := by
  show ((linkOwners (recordFunctions source tree.sites
    (recordClasses source tree.sites empty))).linkCalls source tree.sites).1.entries = _
  rw [linkCalls_entries, linkOwners_entries, recordFunctions, recordAll_entries, recordClasses,
    recordAll_entries]
  rfl

/-- What the usual run records: the sites with a heading. -/
theorem mem_built_entries {source : List Char} {tree : Node} {e : Site × Heading} :
    e ∈ (built source tree).entries ↔ e.1 ∈ tree.sites ∧ e.1.heading? source = some e.2 := by
  rw [built_entries, List.mem_append, mem_headed, mem_headed, Site.heading?_eq_some, and_or_left]

/-- The sites of a tree with a heading have different addresses. -/
theorem headed_addresses_nodup (heading? : Site → Option Heading) (tree : Node) :
    ((headed heading? tree.sites).map (·.1.address)).Nodup := by
  have hsub := (headed_sublist heading? tree.sites).map (·.address)
  rw [List.map_map] at hsub
  exact (Node.sitesAt_addresses_nodup tree).sublist hsub

/-- The usual run records no node twice. -/
theorem built_addresses_nodup (source : List Char) (tree : Node) :
    ((built source tree).entries.map (·.1.address)).Nodup := by
  rw [built_entries, List.map_append]
  refine List.nodup_append.mpr ⟨headed_addresses_nodup _ _, headed_addresses_nodup _ _, ?_⟩
  intro a ha b hb hab
  obtain ⟨e, he, hea⟩ := List.mem_map.mp ha
  obtain ⟨f, hf, hfb⟩ := List.mem_map.mp hb
  obtain ⟨hes, hclass⟩ := mem_headed.mp he
  obtain ⟨hfs, hfunction⟩ := mem_headed.mp hf
  have hsame : e.1 = f.1 := Node.sites_address_inj hes hfs (by rw [hea, hfb, hab])
  rw [← hsame, Site.functionHeading?_of_class hclass] at hfunction
  cases hfunction

/-- In a draft without repeated nodes, every record stands for its node. -/
theorem stands_iff {d : Draft} (hd : (d.entries.map (·.1.address)).Nodup) {slot : Nat}
    {b : Address} : d.Stands slot b ↔ ∃ e, d.entries[slot]? = some e ∧ e.1.address = b := by
  constructor
  · intro h
    exact h.1
  · intro h
    refine ⟨h, ?_⟩
    obtain ⟨e, he, hb⟩ := h
    intro later f hf hfb
    have hlen : later < (d.entries.map (·.1.address)).length := by
      rw [List.length_map]
      exact (List.getElem?_eq_some_iff.mp hf).1
    have hget : (d.entries.map (·.1.address))[later]? = (d.entries.map (·.1.address))[slot]? := by
      rw [List.getElem?_map, List.getElem?_map, he, hf]
      exact congrArg some (hfb.trans hb.symm)
    exact Nat.le_of_eq ((List.getElem?_inj hlen hd).mp hget)

end Draft

/-! ## The declaration around a site -/

namespace Graph

/-- Declaration `i` is the deepest one around site `s` among the declarations with property `p`. -/
def Deepest (g : Graph) (site? : Nat → Option Site) (p : Declaration → Prop) (s : Site)
    (i : Nat) : Prop :=
  ∃ n t, g.node? i = some n ∧ p n ∧ site? i = some t ∧ s ∈ t.below ∧
    ∀ k m u, g.node? k = some m → p m → site? k = some u → s ∈ u.below →
      u.above.length ≤ t.above.length

/-- What happens at site `s` is done by declaration `i`: `i` is the deepest function, arrow or
method around `s`, or the deepest class where only classes are around `s`. -/
def IsCaller (g : Graph) (site? : Nat → Option Site) (s : Site) (i : Nat) : Prop :=
  g.Deepest site? (fun n => n.kind ≠ .classDef) s i ∨
    (∀ k m u, g.node? k = some m → site? k = some u → s ∈ u.below → m.kind = .classDef) ∧
      g.Deepest site? (fun n => n.kind = .classDef) s i

section Caller

variable {g : Graph} {site? : Nat → Option Site} {s t : Site} {i : Nat}

theorem Deepest.congr {p : Declaration → Prop}
    (hst : ∀ k u, site? k = some u → (s ∈ u.below ↔ t ∈ u.below))
    (h : g.Deepest site? p s i) : g.Deepest site? p t i := by
  obtain ⟨n, u, hn, hp, hu, hsu, hdeep⟩ := h
  refine ⟨n, u, hn, hp, hu, (hst i u hu).mp hsu, ?_⟩
  intro k m v hm hpm hv htv
  exact hdeep k m v hm hpm hv ((hst k v hv).mpr htv)

/-- Sites with the same declarations around them have the same caller. -/
theorem IsCaller.congr (hst : ∀ k u, site? k = some u → (s ∈ u.below ↔ t ∈ u.below))
    (h : g.IsCaller site? s i) : g.IsCaller site? t i := by
  rcases h with hfun | ⟨hall, hclass⟩
  · exact Or.inl (hfun.congr hst)
  · refine Or.inr ⟨?_, hclass.congr hst⟩
    intro k m u hm hu htu
    exact hall k m u hm hu ((hst k u hu).mpr htu)

/-- A caller is around what it calls. -/
theorem IsCaller.around (h : g.IsCaller site? s i) : ∃ u, site? i = some u ∧ s ∈ u.below := by
  rcases h with hfun | ⟨-, hclass⟩
  · obtain ⟨n, u, -, -, hu, hsu, -⟩ := hfun
    exact ⟨u, hu, hsu⟩
  · obtain ⟨n, u, -, -, hu, hsu, -⟩ := hclass
    exact ⟨u, hu, hsu⟩

/-- What a class does is done where only classes are around. -/
theorem IsCaller.only_classes (h : g.IsCaller site? s i) {n : Declaration}
    (hn : g.node? i = some n) (hclass : n.kind = .classDef) :
    ∀ k m u, g.node? k = some m → site? k = some u → s ∈ u.below → m.kind = .classDef := by
  rcases h with hfun | ⟨hall, -⟩
  · obtain ⟨n', -, hn', hkind, -⟩ := hfun
    obtain rfl : n' = n := Option.some.inj (hn'.symm.trans hn)
    exact absurd hclass hkind
  · exact hall

end Caller

end Graph

namespace Draft

section Around

variable {d : Draft} {tree : Node} {source : List Char} {s : Site}

/-- What stands above a site in the draft is a declaration around the site. -/
theorem exists_around (hd : d.Lawful tree.sites) (hs : s ∈ tree.sites) {slot : Nat} {b : Address}
    (hb : b ∈ s.address.above) (h : d.Stands slot b) :
    ∃ (k : Nat) (r : Record), d.ordered[k]? = some (r, slot) ∧ r.site.address = b ∧
      s ∈ r.site.below := by
  obtain ⟨⟨e, he, heb⟩, -⟩ := h
  rw [getElem?_entries] at he
  obtain ⟨r, hr, rfl⟩ := Option.map_eq_some_iff.mp he
  have hk := ordered_position hr
  refine ⟨_, r, hk, heb, (Node.mem_below_iff (site_of_ordered hd hk) hs).mpr ?_⟩
  rw [show r.site.address = b from heb]
  exact hb

/-- A declaration around a site stands above it in a draft without repeated nodes. -/
theorem stands_of_around (honce : (d.entries.map (·.1.address)).Nodup) {k slot : Nat} {r : Record}
    (hk : d.ordered[k]? = some (r, slot)) (hbelow : s ∈ r.site.below) :
    r.site.address ∈ s.address.above ∧ d.Stands slot r.site.address :=
  ⟨Site.address_mem_above hbelow, (stands_iff honce).mpr ⟨_, entry_of_ordered hk, rfl⟩⟩

/-- The deepest slot above a site is the slot of the deepest declaration around it. -/
theorem deepestAbove_iff (hd : d.Lawful tree.sites)
    (honce : (d.entries.map (·.1.address)).Nodup) (hs : s ∈ tree.sites)
    {P : Nat → Prop} {Q : Declaration → Prop}
    (hPQ : ∀ k r t, d.ordered[k]? = some (r, t) →
      (P t ↔ Q (declaration source d.ordered k r)))
    {i slot : Nat} {r : Record} (hi : d.ordered[i]? = some (r, slot)) :
    d.DeepestAbove P s.address slot ↔ (d.freeze source).Deepest d.siteAt? Q s i := by
  have hdepth : ∀ {k o : Nat} {q : Record}, d.ordered[k]? = some (q, o) →
      q.site.above.length = q.site.address.length :=
    fun hk => Node.sites_depth (site_of_ordered hd hk)
  constructor
  · intro h
    obtain ⟨b, hb, hstands, hP, hdeep⟩ := h
    obtain ⟨k, q, hk, rfl, hbelow⟩ := exists_around hd hs hb hstands
    -- a slot has one record, so `q` is `r`
    have hqr : q = r := by
      have h1 := record_of_ordered hk
      rw [record_of_ordered hi] at h1
      exact (Option.some.inj h1).symm
    subst hqr
    refine ⟨_, q.site, freeze_node?_eq_some.mpr ⟨q, slot, hi, rfl⟩, (hPQ i q slot hi).mp hP,
      siteAt?_of_ordered hi, hbelow, ?_⟩
    intro k' m u hm hQ hu hsu
    obtain ⟨q', o, hk', rfl⟩ := freeze_node?_eq_some.mp hm
    rw [siteAt?_of_ordered hk'] at hu
    obtain rfl := Option.some.inj hu
    obtain ⟨habove, hstands'⟩ := stands_of_around honce hk' hsu
    rw [hdepth hk', hdepth hi]
    exact hdeep _ habove o hstands' ((hPQ k' q' o hk').mpr hQ)
  · intro h
    obtain ⟨n, t, hn, hQ, ht, hst, hdeep⟩ := h
    obtain ⟨q, o, hi', rfl⟩ := freeze_node?_eq_some.mp hn
    rw [hi] at hi'
    obtain ⟨rfl, rfl⟩ := Prod.mk.inj (Option.some.inj hi')
    rw [siteAt?_of_ordered hi] at ht
    obtain rfl := Option.some.inj ht
    obtain ⟨habove, hstands⟩ := stands_of_around honce hi hst
    refine ⟨_, habove, hstands, (hPQ i r slot hi).mpr hQ, ?_⟩
    intro c hc other hother hP
    obtain ⟨k, q, hk, rfl, hbelow⟩ := exists_around hd hs hc hother
    have hle := hdeep k _ _ (freeze_node?_eq_some.mpr ⟨q, other, hk, rfl⟩)
      ((hPQ k q other hk).mp hP) (siteAt?_of_ordered hk) hbelow
    rw [hdepth hk, hdepth hi] at hle
    exact hle

/-- **The declaration around a site**, said of the draft and of the graph. -/
theorem enclosing?_iff_isCaller (hd : d.Lawful tree.sites)
    (honce : (d.entries.map (·.1.address)).Nodup) (hs : s ∈ tree.sites)
    {i slot : Nat} {r : Record} (hi : d.ordered[i]? = some (r, slot)) :
    d.enclosing? s.address = some slot ↔ (d.freeze source).IsCaller d.siteAt? s i := by
  have hkind : ∀ k q o, d.ordered[k]? = some (q, o) → (d.kindAt? o = some .classDef ↔
      (declaration source d.ordered k q).kind = .classDef) := by
    intro k q o hk
    rw [kindAt?_eq, entry_of_ordered hk]
    exact Option.some_inj
  have hall : (∀ b ∈ s.address.above, ∀ k, d.Stands k b → d.kindAt? k = some .classDef) ↔
      ∀ k m u, (d.freeze source).node? k = some m → d.siteAt? k = some u → s ∈ u.below →
        m.kind = .classDef := by
    constructor
    · intro h k m u hm hu hsu
      obtain ⟨q, o, hk, rfl⟩ := freeze_node?_eq_some.mp hm
      rw [siteAt?_of_ordered hk] at hu
      obtain rfl := Option.some.inj hu
      obtain ⟨habove, hstands⟩ := stands_of_around honce hk hsu
      exact (hkind k q o hk).mp (h _ habove o hstands)
    · intro h b hb o ho
      obtain ⟨k, q, hk, -, hbelow⟩ := exists_around hd hs hb ho
      exact (hkind k q o hk).mpr (h k _ _ (freeze_node?_eq_some.mpr ⟨q, o, hk, rfl⟩)
        (siteAt?_of_ordered hk) hbelow)
  have hfunction : d.DeepestAbove (fun k => d.kindAt? k ≠ some .classDef) s.address slot ↔
      (d.freeze source).Deepest d.siteAt? (fun n => n.kind ≠ .classDef) s i :=
    deepestAbove_iff hd honce hs (fun k q o hk => not_congr (hkind k q o hk)) hi
  have hclass : d.DeepestAbove (fun k => d.kindAt? k = some .classDef) s.address slot ↔
      (d.freeze source).Deepest d.siteAt? (fun n => n.kind = .classDef) s i :=
    deepestAbove_iff hd honce hs hkind hi
  rw [enclosing?_eq_some, hall, hfunction, hclass]
  rfl

end Around

/-! ## Finished drafts -/

/-- All passes have done their work: every site with a heading is recorded, and once, owners are
what is around a declaration, and the edges are those of the calls. -/
structure Finished (d : Draft) (source : List Char) (tree : Node) : Prop where
  lawful : d.Lawful tree.sites
  complete : ∀ {e : Site × Heading},
    e ∈ d.entries ↔ e.1 ∈ tree.sites ∧ e.1.heading? source = some e.2
  once : (d.entries.map (·.1.address)).Nodup
  owners : ∀ {slot : Nat} {r : Record},
    d.records[slot]? = some r → r.owner = d.enclosing? r.site.address
  edges : ∀ {a b : Nat}, d.Calls a b ↔ ∃ s ∈ tree.sites, (a, b) ∈ d.edgesAt source s

section Finished

variable {d : Draft} {source : List Char} {tree : Node}

/-- **The owner of a declaration is the one around it.** -/
theorem Finished.owner_iff (hd : d.Finished source tree) {i p : Nat} {s : Site}
    (hs : d.siteAt? i = some s) :
    (d.freeze source).Owner i p ↔ (d.freeze source).IsCaller d.siteAt? s p := by
  obtain ⟨⟨r, slot⟩, hi, rfl⟩ := Option.map_eq_some_iff.mp hs
  have hsite := site_of_ordered hd.lawful hi
  have howner := hd.owners (record_of_ordered hi)
  constructor
  · intro h
    obtain ⟨r', slot', q, o, hi', ho, hp, -⟩ := freeze_owner hd.lawful h
    rw [hi] at hi'
    obtain ⟨rfl, rfl⟩ := Prod.mk.inj (Option.some.inj hi')
    rw [howner] at ho
    exact (enclosing?_iff_isCaller hd.lawful hd.once hsite hp).mp ho
  · intro h
    obtain ⟨u, hu, -⟩ := h.around
    obtain ⟨⟨q, o⟩, hp, -⟩ := Option.map_eq_some_iff.mp hu
    have ho := (enclosing?_iff_isCaller hd.lawful hd.once hsite hp).mpr h
    refine ⟨_, freeze_node?_eq_some.mpr ⟨r, slot, hi, rfl⟩, ?_⟩
    show r.owner.map (position d.ordered) = some p
    rw [howner, ho, Option.map_some, position_of_ordered hp]

/-- A declaration below another one has an owner. -/
theorem Finished.exists_owner (hd : d.Finished source tree) {i k : Nat} {s t : Site}
    (hs : d.siteAt? i = some s) (ht : d.siteAt? k = some t) (hst : s ∈ t.below) :
    ∃ p, (d.freeze source).Owner i p := by
  obtain ⟨⟨r, slot⟩, hi, rfl⟩ := Option.map_eq_some_iff.mp hs
  obtain ⟨⟨q, o⟩, hk, rfl⟩ := Option.map_eq_some_iff.mp ht
  obtain ⟨habove, hstands⟩ := stands_of_around hd.once hk hst
  obtain ⟨p, hp⟩ := exists_enclosing? habove hstands
  refine ⟨position d.ordered p, _, freeze_node?_eq_some.mpr ⟨r, slot, hi, rfl⟩, ?_⟩
  show r.owner.map (position d.ordered) = some (position d.ordered p)
  rw [hd.owners (record_of_ordered hi), hp, Option.map_some]

/-- **The calls of a declaration, by the names that calls refer to and the declarations around
them.** -/
theorem Finished.calls_iff (hd : d.Finished source tree) {i j : Nat} {m : Declaration}
    (hm : (d.freeze source).node? j = some m) :
    (d.freeze source).Calls i j ↔ ∃ s ∈ tree.sites, s.callKey? source = some m.name ∧
      (d.freeze source).IsCaller d.siteAt? s i := by
  rw [freeze_calls hd.lawful]
  obtain ⟨q, o, hj, rfl⟩ := freeze_node?_eq_some.mp hm
  constructor
  · intro h
    obtain ⟨r, slot, q', o', hi, hj', he⟩ := h
    rw [hj] at hj'
    obtain ⟨rfl, rfl⟩ := Prod.mk.inj (Option.some.inj hj')
    obtain ⟨s, hs, hes⟩ := hd.edges.mp he
    obtain ⟨name, hname, hcaller, e, hentry, hename⟩ := mem_edgesAt.mp hes
    rw [entry_of_ordered hj] at hentry
    obtain rfl := Option.some.inj hentry
    refine ⟨s, hs, ?_, (enclosing?_iff_isCaller hd.lawful hd.once hs hi).mp hcaller⟩
    rw [hname, ← hename]
    rfl
  · intro h
    obtain ⟨s, hs, hname, hcaller⟩ := h
    obtain ⟨u, hu, -⟩ := hcaller.around
    obtain ⟨⟨r, slot⟩, hi, -⟩ := Option.map_eq_some_iff.mp hu
    have henclosing := (enclosing?_iff_isCaller hd.lawful hd.once hs hi).mpr hcaller
    have hedge := mem_edgesAt.mpr ⟨_, hname, henclosing, _, entry_of_ordered hj, rfl⟩
    exact ⟨r, slot, q, o, hi, hj, hd.edges.mpr ⟨s, hs, hedge⟩⟩

end Finished

/-- Every site with a heading is recorded, and once, and no edge is added yet. -/
structure Recorded (d : Draft) (source : List Char) (tree : Node) : Prop where
  lawful : d.Lawful tree.sites
  complete : ∀ {e : Site × Heading},
    e ∈ d.entries ↔ e.1 ∈ tree.sites ∧ e.1.heading? source = some e.2
  once : (d.entries.map (·.1.address)).Nodup
  unlinked : d.callCount = 0

section Recorded

variable {d : Draft} {source : List Char} {tree : Node}

/-- Linking recorded nodes by what is around them and by what they call finishes a draft. -/
theorem Recorded.finished (h : d.Recorded source tree) {d' : Draft}
    (hlawful : d'.Lawful tree.sites) (hentries : d'.entries = d.entries)
    (howners : ∀ {slot : Nat} {r : Record},
      d'.records[slot]? = some r → r.owner = d.enclosing? r.site.address)
    (hedges : ∀ {a b : Nat}, d'.Calls a b ↔ ∃ s ∈ tree.sites, (a, b) ∈ d.edgesAt source s) :
    d'.Finished source tree where
  lawful := hlawful
  complete := by
    rw [hentries]
    exact h.complete
  once := by
    rw [hentries]
    exact h.once
  owners := by
    intro slot r hr
    rw [howners hr, enclosing?_congr hentries]
  edges := by
    simp only [edgesAt_congr hentries]
    exact hedges

/-- After linking, the owner of every record is what is around it. -/
theorem linkOwners_owner {slot : Nat} {r : Record} (h : d.linkOwners.records[slot]? = some r) :
    r.owner = d.enclosing? r.site.address := by
  rw [linkOwners, Array.getElem?_map] at h
  obtain ⟨r₀, -, rfl⟩ := Option.map_eq_some_iff.mp h
  rfl

/-- Where there were no edges before, the pass over the calls adds those of the calls. -/
theorem linkCalls_calls_of_unlinked (hnone : d.callCount = 0) {sites : List Site} {a b : Nat} :
    (d.linkCalls source sites).1.Calls a b ↔ ∃ s ∈ sites, (a, b) ∈ d.edgesAt source s := by
  rw [linkCalls_calls]
  exact or_iff_right (not_calls_of_callCount hnone a b)

/-- Owners first, then calls. -/
theorem Recorded.owners_calls (h : d.Recorded source tree) :
    (d.linkOwners.linkCalls source tree.sites).1.Finished source tree := by
  refine h.finished (linkCalls_lawful (linkOwners_lawful h.lawful) _) ?_ ?_ ?_
  · rw [linkCalls_entries, linkOwners_entries]
  · intro slot r hr
    obtain ⟨q, hq, hsite, -, -, howner⟩ :=
      exists_record_of_bare (linkCalls_bare _ source tree.sites) hr
    rw [hsite, howner]
    exact linkOwners_owner hq
  · intro a b
    rw [linkCalls_calls_of_unlinked (d.linkOwners_callCount.trans h.unlinked)]
    simp only [edgesAt_congr d.linkOwners_entries]

end Recorded

/-! ## The graph of a tree -/

section Built

variable {source : List Char} {tree : Node}

theorem built_lawful (source : List Char) (tree : Node) :
    (built source tree).Lawful tree.sites :=
  runAll_lawful Pass.usual (empty_lawful tree.sites)

/-- Before linking, the usual run has recorded the declared sites. -/
theorem built_recorded (source : List Char) (tree : Node) :
    (recordFunctions source tree.sites (recordClasses source tree.sites empty)).Recorded
      source tree where
  lawful := recordAll_lawful (recordAll_lawful (empty_lawful _))
  complete := by
    rw [← linkOwners_entries, ← linkCalls_entries]
    exact mem_built_entries
  once := by
    rw [← linkOwners_entries, ← linkCalls_entries]
    exact built_addresses_nodup source tree
  unlinked := by
    rw [recordFunctions, recordAll_callCount, recordClasses, recordAll_callCount]
    rfl

/-- The usual run finishes a draft. -/
theorem built_finished (source : List Char) (tree : Node) :
    (built source tree).Finished source tree :=
  (built_recorded source tree).owners_calls

/-- The declarations of the graph and the sites with a heading correspond to each other: every
declaration is at such a site, with its heading. -/
theorem built_declared {i : Nat} {n : Declaration}
    (hn : (Graph.build source tree).node? i = some n) :
    ∃ s ∈ tree.sites, (built source tree).siteAt? i = some s ∧
      s.heading? source = some ⟨n.kind, n.name, n.params⟩ := by
  obtain ⟨r, slot, hi, rfl⟩ := freeze_node?_eq_some.mp hn
  obtain ⟨hs, hh⟩ := mem_built_entries.mp (List.mem_of_getElem? (entry_of_ordered hi))
  exact ⟨r.site, hs, siteAt?_of_ordered hi, hh⟩

/-- Every site with a heading has its place in source order. -/
theorem exists_ordered {s : Site} {h : Heading} (hs : s ∈ tree.sites)
    (hh : s.heading? source = some h) :
    ∃ (k : Nat) (r : Record) (slot : Nat), (built source tree).ordered[k]? = some (r, slot) ∧
      r.site = s ∧ r.heading = h := by
  have hmem : (s, h) ∈ (built source tree).entries := mem_built_entries.mpr ⟨hs, hh⟩
  obtain ⟨slot, hslot⟩ := List.mem_iff_getElem?.mp hmem
  rw [getElem?_entries] at hslot
  obtain ⟨r, hr, hrs⟩ := Option.map_eq_some_iff.mp hslot
  obtain ⟨hsite, hheading⟩ := Prod.mk.inj hrs
  exact ⟨_, r, slot, ordered_position hr, hsite, hheading⟩

/-- Every site with a heading is declared, under the name in its heading. -/
theorem exists_built {s : Site} {h : Heading} (hs : s ∈ tree.sites)
    (hh : s.heading? source = some h) :
    ∃ i n, (Graph.build source tree).node? i = some n ∧ n.name = h.name := by
  obtain ⟨k, r, slot, hk, -, rfl⟩ := exists_ordered hs hh
  exact ⟨k, _, freeze_node?_eq_some.mpr ⟨r, slot, hk, rfl⟩, rfl⟩

/-- No two declarations are at one site: no node is recorded twice. -/
theorem built_siteAt?_inj {i k : Nat} {s : Site} (hi : (built source tree).siteAt? i = some s)
    (hk : (built source tree).siteAt? k = some s) : i = k := by
  obtain ⟨⟨r, slot⟩, hr, hrs⟩ := Option.map_eq_some_iff.mp hi
  obtain ⟨⟨q, o⟩, hq, hqs⟩ := Option.map_eq_some_iff.mp hk
  have haddress : ∀ {k o : Nat} {q : Record}, (built source tree).ordered[k]? = some (q, o) →
      ((built source tree).entries.map (·.1.address))[o]? = some q.site.address := by
    intro k o q h
    rw [List.getElem?_map, entry_of_ordered h]
    rfl
  have hslot := haddress hr
  have hlt := (List.getElem?_eq_some_iff.mp hslot).1
  have hsame : slot = o := by
    refine (List.getElem?_inj hlt (built_addresses_nodup source tree)).mp ?_
    rw [hslot, haddress hq, show r.site = q.site from hrs.trans hqs.symm]
  rw [← position_of_ordered hr, ← position_of_ordered hq, hsame]

/-- Every site with a heading is that of exactly one declaration of the graph. -/
theorem built_declares {s : Site} (hs : s ∈ tree.sites) (hh : (s.heading? source).isSome) :
    ∃ i, ((Graph.build source tree).node? i).isSome ∧ (built source tree).siteAt? i = some s ∧
      ∀ k, (built source tree).siteAt? k = some s → k = i := by
  obtain ⟨h, hh⟩ := Option.isSome_iff_exists.mp hh
  obtain ⟨i, r, slot, hi, rfl, -⟩ := exists_ordered hs hh
  have hsite := siteAt?_of_ordered hi
  have hnode : (Graph.build source tree).node? i = some _ :=
    freeze_node?_eq_some.mpr ⟨r, slot, hi, rfl⟩
  exact ⟨i, by rw [hnode]; rfl, hsite, fun k hk => built_siteAt?_inj hk hsite⟩

/-- Around a site below an undeclared one, with nothing declared between the two, are the same
declarations as around the undeclared one. -/
theorem below_undeclared {s t u : Site} (hs : s ∈ tree.sites) (ht : t ∈ tree.sites)
    (hu : u ∈ tree.sites) (hst : s ∈ t.below) (hut : u ≠ t)
    (hbetween : ¬ (u ∈ t.below ∧ s ∈ u.below)) : s ∈ u.below ↔ t ∈ u.below := by
  obtain ⟨htsuf, htlen⟩ := Address.mem_above.mp (Site.address_mem_above hst)
  constructor
  · intro hsu
    obtain ⟨husuf, hulen⟩ := Address.mem_above.mp (Site.address_mem_above hsu)
    refine (Node.mem_below_iff hu ht).mpr (Address.mem_above.mpr ?_)
    -- both addresses are suffixes of that of `s`, so the shorter one is a suffix of the other
    rcases Nat.lt_trichotomy u.address.length t.address.length with hlt | heq | hgt
    · exact ⟨List.suffix_of_suffix_length_le husuf htsuf (Nat.le_of_lt hlt), hlt⟩
    · have hsuf := List.suffix_of_suffix_length_le husuf htsuf (Nat.le_of_eq heq)
      exact absurd (Node.sites_address_inj hu ht (hsuf.eq_of_length heq)) hut
    · have hsuf := List.suffix_of_suffix_length_le htsuf husuf (Nat.le_of_lt hgt)
      have hbelow := (Node.mem_below_iff ht hu).mpr (Address.mem_above.mpr ⟨hsuf, hgt⟩)
      exact absurd ⟨hbelow, hsu⟩ hbetween
  · intro htu
    obtain ⟨husuf, hulen⟩ := Address.mem_above.mp (Site.address_mem_above htu)
    exact (Node.mem_below_iff hu hs).mpr
      (Address.mem_above.mpr ⟨husuf.trans htsuf, Nat.lt_trans hulen htlen⟩)

/-- The edges of the graph, by the names that calls refer to and the declarations around them. -/
theorem built_calls_iff {i j : Nat} {m : Declaration}
    (hm : (Graph.build source tree).node? j = some m) :
    (Graph.build source tree).Calls i j ↔ ∃ s ∈ tree.sites, s.callKey? source = some m.name ∧
      (Graph.build source tree).IsCaller (built source tree).siteAt? s i :=
  (built_finished source tree).calls_iff hm

end Built

end Draft

/-- **The edges of the graph are the calls of the tree.** The declarations of the graph are the
sites with a heading. One declaration calls another exactly if the tree holds a call that names the
second and whose caller is the first. Inside a callback without a heading, calls belong to whoever
the callback belongs to, and calls that nothing declared is around belong to nobody. -/
theorem Graph.build_calls (source : List Char) (tree : Node) :
    let g := Graph.build source tree
    let site? := (Draft.built source tree).siteAt?
    (∀ i n, g.node? i = some n → ∃ s ∈ tree.sites, site? i = some s ∧
      s.heading? source = some ⟨n.kind, n.name, n.params⟩) ∧
    (∀ s ∈ tree.sites, (s.heading? source).isSome →
      ∃ i, (g.node? i).isSome ∧ site? i = some s ∧ ∀ k, site? k = some s → k = i) ∧
    (∀ i j n m, g.node? i = some n → g.node? j = some m →
      (j ∈ n.calls ↔ ∃ s ∈ tree.sites, s.node.kind = .callExpression ∧
        (∃ callee key, s.node.child? .function = some callee ∧ callee.Names source key ∧
          String.ofList key = m.name) ∧
        g.IsCaller site? s i)) ∧
    (∀ s ∈ tree.sites, ∀ t ∈ tree.sites, s ∈ t.below → t.heading? source = none →
      (∀ u ∈ tree.sites, u ∈ t.below → s ∈ u.below → u.heading? source = none) →
        ∀ i, g.IsCaller site? s i ↔ g.IsCaller site? t i) ∧
    ∀ s ∈ tree.sites, (∀ u ∈ tree.sites, s ∈ u.below → u.heading? source = none) →
      ∀ i, ¬ g.IsCaller site? s i := by
  intro g site?
  have hd := Draft.built_lawful source tree
  have honce := Draft.built_addresses_nodup source tree
  -- what a declaration is placed at has a heading
  have hheading : ∀ k u, site? k = some u → u ∈ tree.sites ∧ (u.heading? source).isSome := by
    intro k u hu
    obtain ⟨⟨r, slot⟩, hr, rfl⟩ := Option.map_eq_some_iff.mp hu
    obtain ⟨hs, hh⟩ := Draft.mem_built_entries.mp (List.mem_of_getElem? (Draft.entry_of_ordered hr))
    exact ⟨hs, by rw [hh]; rfl⟩
  refine ⟨fun i n hn => Draft.built_declared hn, fun s hs hh => Draft.built_declares hs hh,
    ?_, ?_, ?_⟩
  · intro i j n m hn hm
    rw [Graph.mem_calls_iff hn, Draft.built_calls_iff hm]
    simp only [Site.callKey?_eq_some, and_assoc, g, site?]
  · intro s hs t ht hst hnone hbetween i
    have hsame : ∀ k u, site? k = some u → (s ∈ u.below ↔ t ∈ u.below) := by
      intro k u hu
      obtain ⟨hut, huh⟩ := hheading k u hu
      refine Draft.below_undeclared hs ht hut hst ?_ ?_
      · intro heq
        rw [heq, hnone] at huh
        cases huh
      · intro h
        rw [hbetween u hut h.1 h.2] at huh
        cases huh
    exact ⟨fun h => h.congr hsame, fun h => h.congr fun k u hu => (hsame k u hu).symm⟩
  · intro s hs hnone i h
    obtain ⟨u, hu, hsu⟩ := h.around
    obtain ⟨hut, huh⟩ := hheading i u hu
    rw [hnone u hut hsu] at huh
    cases huh

end CallVicinity
