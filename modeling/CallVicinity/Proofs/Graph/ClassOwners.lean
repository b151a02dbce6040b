import CallVicinity.Proofs.Graph.SourceOrder

/-!
# Classes among the owners

The declaration around a site is the deepest function, arrow or method, and a class only where there
is none of those, however near a class may be. So two notions of nesting part where a class stands
in a function: the tree has it around its methods, the graph gives them to the function. What holds
of a class that does own something follows from one fact (`Graph.IsCaller.only_classes`), which
declarations and calls share:

> `Graph.build_class_owners`: what a class owns has no function, arrow or method around it. Chains
> of owners are functions first and classes after, and a class in a function owns and calls nothing.
-/

namespace CallVicinity

namespace Graph

/-- A function, arrow or method of the graph is around site `s`. -/
def InFunction (g : Graph) (site? : Nat → Option Site) (s : Site) : Prop :=
  ∃ k m u, g.node? k = some m ∧ m.kind ≠ .classDef ∧ site? k = some u ∧ s ∈ u.below

section Caller

variable {g : Graph} {site? : Nat → Option Site} {s t : Site} {c : Nat} {n : Declaration}

/-- What a class does is not done in a function. -/
theorem IsCaller.not_inFunction (h : g.IsCaller site? t c) (hc : g.node? c = some n)
    (hclass : n.kind = .classDef) : ¬ g.InFunction site? t := by
  rintro ⟨k, m, u, hm, hkind, hu, htu⟩
  exact hkind (h.only_classes hc hclass k m u hm hu htu)

/-- A class that does anything does not stand in a function. -/
theorem IsCaller.class_not_inFunction (h : g.IsCaller site? t c) (hc : g.node? c = some n)
    (hclass : n.kind = .classDef) (hs : site? c = some s) : ¬ g.InFunction site? s := by
  rintro ⟨k, m, u, hm, hkind, hu, hsu⟩
  obtain ⟨s', hs', hts⟩ := h.around
  rw [hs] at hs'
  obtain rfl := Option.some.inj hs'
  exact h.not_inFunction hc hclass ⟨k, m, u, hm, hkind, hu, Site.below_trans hsu hts⟩

end Caller

end Graph

namespace Draft

variable {source : List Char} {tree : Node}

/-- Above a class that owns something there are only classes. -/
theorem class_above {y p a : Nat} {m : Declaration} (hy : (Graph.build source tree).Owner y p)
    (hm : (Graph.build source tree).node? p = some m) (hclass : m.kind = .classDef)
    (ha : Relation.ReflTransGen (Graph.build source tree).Owner p a) :
    ∃ n, (Graph.build source tree).node? a = some n ∧ n.kind = .classDef := by
  rcases Relation.ReflTransGen.cases_tail ha with rfl | ⟨b, -, hb⟩
  · exact ⟨m, hm, hclass⟩
  obtain ⟨n, hn⟩ :=
    Graph.exists_node? ((freeze_owned (built_lawful source tree) source).upward hb).1
  obtain ⟨k, hk, -⟩ := id hy
  obtain ⟨s, -, hs, -⟩ := built_declared hk
  obtain ⟨u, -, hu, -⟩ := built_declared hn
  have hcaller := ((built_finished source tree).owner_iff hs).mp hy
  obtain ⟨t, ht, hst⟩ := hcaller.around
  -- what is above the class in the graph is above it in the tree, and so around what it owns
  have hsu : s ∈ u.below := by
    rcases below_of_owned hu ht ha with rfl | htu
    · exact hst
    · exact Site.below_trans htu hst
  exact ⟨n, hn, hcaller.only_classes hm hclass a n u hn hu hsu⟩

/-- A chain of owners has its functions, arrows and methods first and its classes after. -/
theorem chain_classes_last {next : Option Nat} {as : List Nat}
    (h : (Graph.build source tree).OwnerChain next as) :
    (∀ p, next = some p → ∃ y, (Graph.build source tree).Owner y p) →
      ∃ inner outer, as = inner ++ outer ∧
        (∀ a ∈ inner, ∃ n, (Graph.build source tree).node? a = some n ∧ n.kind ≠ .classDef) ∧
        ∀ a ∈ outer, ∃ n, (Graph.build source tree).node? a = some n ∧ n.kind = .classDef := by
  induction h with
  | stop =>
    intro _
    exact ⟨[], [], rfl, by simp, by simp⟩
  | @step i n as hn rest ih =>
    intro howned
    by_cases hclass : n.kind = .classDef
    · obtain ⟨y, hy⟩ := howned i rfl
      refine ⟨[], i :: as, rfl, by simp, ?_⟩
      intro a ha
      obtain ⟨p, hp, hpa⟩ := (Graph.OwnerChain.step hn rest).above a ha
      obtain rfl := Option.some.inj hp
      exact class_above hy hn hclass hpa
    · obtain ⟨inner, outer, rfl, hinner, houter⟩ := ih fun p hp => ⟨i, n, hn, hp⟩
      refine ⟨i :: inner, outer, rfl, ?_, houter⟩
      intro a ha
      rcases List.mem_cons.mp ha with rfl | ha
      · exact ⟨n, hn, hclass⟩
      · exact hinner a ha

end Draft

/-- **A class owns and calls only what no function is around.** Every declaration is at a site of
the tree. If its owner is a class, then no function, arrow or method of the graph is around it.
Going up from a declaration, functions, arrows and methods come first and classes after. A class
with a function, arrow or method around it has no children and calls nothing. -/
theorem Graph.build_class_owners (source : List Char) (tree : Node) :
    let g := Graph.build source tree
    let site? := (Draft.built source tree).siteAt?
    (∀ i n, g.node? i = some n → ∃ s ∈ tree.sites, site? i = some s ∧
      s.heading? source = some ⟨n.kind, n.name, n.params⟩) ∧
    (∀ i p m s, g.Owner i p → g.node? p = some m → m.kind = .classDef → site? i = some s →
      ¬ g.InFunction site? s) ∧
    (∀ i, i < g.size → ∃ inner outer, g.ancestors? i = some (inner ++ outer) ∧
      (∀ a ∈ inner, ∃ n, g.node? a = some n ∧ n.kind ≠ .classDef) ∧
      ∀ a ∈ outer, ∃ n, g.node? a = some n ∧ n.kind = .classDef) ∧
    ∀ c n s, g.node? c = some n → n.kind = .classDef → site? c = some s → g.InFunction site? s →
      n.children = [] ∧ n.calls = ∅ := by
  intro g site?
  have hd := Draft.built_finished source tree
  have hg := Draft.freeze_owned (Draft.built_lawful source tree) source
  refine ⟨fun i n hn => Draft.built_declared hn, ?_, ?_, ?_⟩
  · intro i p m s howner hm hclass hs
    exact ((hd.owner_iff hs).mp howner).not_inFunction hm hclass
  · intro i hi
    obtain ⟨n, hn⟩ := exists_node? hi
    obtain ⟨as, hchain, -⟩ := hg.exists_owners hn
    obtain ⟨inner, outer, rfl, hinner, houter⟩ :=
      Draft.chain_classes_last hchain fun p hp => ⟨i, n, hn, hp⟩
    exact ⟨inner, outer, hg.ancestors?_eq hn hchain, hinner, houter⟩
  · intro c n s hn hclass hs hinside
    refine ⟨List.eq_nil_iff_forall_not_mem.mpr ?_, IndexSet.ext_mem fun j => ?_⟩
    · intro y hy
      have howner := (hg.children hn y).mp hy
      obtain ⟨k, hk, -⟩ := id howner
      obtain ⟨t, -, ht, -⟩ := Draft.built_declared hk
      exact ((hd.owner_iff ht).mp howner).class_not_inFunction hn hclass hs hinside
    · refine iff_of_false ?_ (IndexSet.not_mem_empty j)
      intro hj
      have hcalls : g.Calls c j := (mem_calls_iff hn).mp hj
      obtain ⟨m, hm⟩ := exists_node? ((Draft.freeze_calls hd.lawful).mp hcalls).lt_size.2
      obtain ⟨t, -, -, hcaller⟩ := (Draft.built_calls_iff hm).mp hcalls
      exact hcaller.class_not_inFunction hn hclass hs hinside

end CallVicinity
