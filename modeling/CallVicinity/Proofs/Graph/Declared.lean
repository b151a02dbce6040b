import CallVicinity.Proofs.Graph.SourceOrder

/-!
# Which nodes are declarations

A class is a declaration, and so is a function unless it is a callback written in place. Whether it
is one is read off the tree around it: `Site.InlineCallback` says it with the sites of its parent
and of the call, without the roles in which a function is named.

> `Graph.build_declares`: the declarations of a graph are the eligible nodes of its tree, each of
> them once, with the kind, the range and the text of its node.

Two passes with different tests record into one list that is sorted afterwards. What they record
together are the sites with a heading, so what is left is to say which sites those are
(`Site.heading?_isSome_iff`).
-/

namespace CallVicinity

/-! ## Arguments of calls -/

/-- A child of a list of arguments that is an argument: a rule of the grammar and no comment. -/
def Node.isArgument (n : Node) : Bool :=
  n.label.named && !n.isComment

/-- The child with number `k` is the second argument: it is an argument, and one comes before. -/
def Node.SecondArgument (arguments : Node) (k : Nat) : Prop :=
  ∃ c, arguments.children[k]? = some c ∧ c.isArgument = true ∧
    (arguments.children.take k).countP Node.isArgument = 1

/-- A callee that adds or removes an event listener. -/
def Node.IsListenerMethod (source : List Char) (callee : Node) : Prop :=
  ∃ object property, callee.construct = .member object property ∧
    (property.text source = "addEventListener".toList ∨
      property.text source = "removeEventListener".toList)

/-- The second of the positional arguments is the second argument among the children. -/
theorem Node.positionalArguments_second {arguments : Node} {k : Nat} :
    arguments.positionalArguments[1]?.map (·.2) = some k ↔ arguments.SecondArgument k := by
  have h := @getElem?_filter_zipIdx Node Node.isArgument arguments.children 0 1 k
  rw [Nat.zero_add] at h
  exact h

theorem Naming.contains_listenerMethods {method : List Char} :
    listenerMethods.contains method = true ↔
      method = "addEventListener".toList ∨ method = "removeEventListener".toList := by
  simp [listenerMethods]

/-- A function is written in place exactly where it is an argument of a call, other than the second
one of a call that adds or removes a listener. -/
theorem Naming.argumentRole_eq_inline {source : List Char} {s : Site} :
    argumentRole source s = .inline ↔ ∃ arguments call callee,
      s.parent? = some arguments ∧ s.grandparent? = some call ∧ arguments.kind = .arguments ∧
      call.construct = .call callee ∧
      ¬ (callee.IsListenerMethod source ∧
        arguments.positionalArguments[1]?.map (·.2) = s.number?) := by
  unfold argumentRole
  constructor
  · intro h
    split at h
    next arguments call hparent hgrandparent =>
      split at h
      next hkind =>
        split at h
        next callee hcall =>
          refine ⟨arguments, call, callee, hparent, hgrandparent, hkind, hcall, ?_⟩
          rintro ⟨⟨object, property, hmember, htext⟩, hsecond⟩
          have hmethod := contains_listenerMethods.mpr htext
          rw [hmember] at h
          simp only [hmethod, hsecond, beq_self_eq_true, Bool.and_self, if_true] at h
          cases h
        next => cases h
      next => cases h
    next => cases h
  · rintro ⟨arguments, call, callee, hparent, hgrandparent, hkind, hcall, hlistener⟩
    rw [hparent, hgrandparent]
    simp only [hkind, if_true, hcall]
    split
    next object property hmember =>
      refine if_neg ?_
      intro hyes
      rw [Bool.and_eq_true, beq_iff_eq] at hyes
      exact hlistener
        ⟨⟨object, property, hmember, contains_listenerMethods.mp hyes.1⟩, hyes.2⟩
    next => rfl

/-! ## Eligible nodes -/

/-- An argument of a call, other than the listener that the call adds or removes: its parent lists
the arguments, and the node above that is the call. -/
def Site.PassedInPlace (tree : Node) (source : List Char) (s : Site) : Prop :=
  ∃ arguments ∈ tree.sites, ∃ call ∈ tree.sites, ∃ k j callee,
    arguments.IsChild k s ∧ call.IsChild j arguments ∧ arguments.node.kind = .arguments ∧
    call.node.construct = .call callee ∧
    ¬ (callee.IsListenerMethod source ∧ arguments.node.SecondArgument k)

/-- A callback that is written in place: a function expression without a name of its own that is
passed to a call. -/
structure Site.InlineCallback (tree : Node) (source : List Char) (s : Site) : Prop where
  expression : ∃ form, s.node.construct = .function form ∧ form ≠ .declaration
  nameless : s.node.child? .name = none
  passed : s.PassedInPlace tree source

/-- A class, or a function that is not a callback written in place. -/
def Site.Eligible (tree : Node) (source : List Char) (s : Site) : Prop :=
  s.node.construct = .classBody ∨
    (∃ form, s.node.construct = .function form) ∧ ¬ s.InlineCallback tree source

/-- The kind of declaration that a construct makes. -/
def Construct.declKind? : Construct → Option DeclKind
  | .classBody => some .classDef
  | .function form => some form.declKind
  | _ => none

section Eligible

variable {tree : Node} {source : List Char} {s : Site}

/-- The role of a site of a tree, read off the sites of its parent and of the call. -/
theorem Naming.argumentRole_inline_iff (hs : s ∈ tree.sites) :
    argumentRole source s = .inline ↔ s.PassedInPlace tree source := by
  have hnumber : ∀ {p : Site} {k : Nat}, p.IsChild k s → s.number? = some k := by
    intro p k hk
    rw [Site.number?, hk.address]
    rfl
  rw [argumentRole_eq_inline]
  constructor
  · rintro ⟨n, m, callee, hparent, hgrandparent, hkind, hcall, hlistener⟩
    obtain ⟨above, habove⟩ := List.head?_eq_some_iff.mp hparent
    obtain ⟨p, hp, k, hk, rfl, habove'⟩ := Node.exists_parent hs habove
    rw [Site.grandparent?, habove, ← habove', List.getElem?_cons_succ, ← List.head?_eq_getElem?]
      at hgrandparent
    obtain ⟨above', hpabove⟩ := List.head?_eq_some_iff.mp hgrandparent
    obtain ⟨q, hq, j, hj, rfl, -⟩ := Node.exists_parent hp hpabove
    rw [hnumber hk, Node.positionalArguments_second] at hlistener
    exact ⟨p, hp, q, hq, k, j, callee, hk, hj, hkind, hcall, hlistener⟩
  · rintro ⟨p, hp, q, hq, k, j, callee, hk, hj, hkind, hcall, hlistener⟩
    have habove : s.above = p.node :: q.node :: q.above := by
      rw [hk.above hs hp, hj.above hp hq]
    refine ⟨p.node, q.node, callee, ?_, ?_, hkind, hcall, ?_⟩
    · rw [Site.parent?, habove]
      rfl
    · rw [Site.grandparent?, habove]
      rfl
    · rw [hnumber hk, Node.positionalArguments_second]
      exact hlistener

/-- A function is left out exactly where it is a callback written in place. -/
theorem Site.functionName?_eq_none (hs : s ∈ tree.sites) {form : FunctionForm}
    (hform : s.node.construct = .function form) :
    s.functionName? source form = none ↔ s.InlineCallback tree source := by
  unfold functionName?
  constructor
  · intro h
    by_cases hnameless : form ≠ .declaration ∧ (s.node.child? .name).isNone
    · rw [if_pos hnameless] at h
      refine ⟨⟨form, hform, hnameless.1⟩, Option.isNone_iff_eq_none.mp hnameless.2, ?_⟩
      cases hrole : Naming.argumentRole source s with
      | inline => exact (Naming.argumentRole_inline_iff hs).mp hrole
      | none | listener name =>
        rw [hrole] at h
        cases h
    · rw [if_neg hnameless] at h
      cases h
  · intro h
    obtain ⟨form', hform', hne⟩ := h.expression
    obtain rfl : form = form' := Construct.function.inj (hform.symm.trans hform')
    rw [if_pos ⟨hne, by rw [h.nameless]; rfl⟩,
      (Naming.argumentRole_inline_iff hs).mpr h.passed]

/-- **The sites with a heading are the eligible ones.** -/
theorem Site.heading?_isSome_iff (hs : s ∈ tree.sites) :
    (s.heading? source).isSome ↔ s.Eligible tree source := by
  unfold heading? classHeading? functionHeading? Eligible
  cases hc : s.node.construct with
  | classBody => simp
  | function form =>
    rw [← Site.functionName?_eq_none hs hc]
    simp [Option.isSome_iff_ne_none]
  | _ => simp

/-- The kind in a heading is that of the construct. -/
theorem Site.heading?_kind {h : Heading} (hh : s.heading? source = some h) :
    s.node.construct.declKind? = some h.kind := by
  rcases Site.heading?_eq_some.mp hh with hclass | hfunction
  · unfold classHeading? at hclass
    split at hclass
    next hc =>
      obtain rfl := Option.some.inj hclass
      rw [hc]
      rfl
    next => cases hclass
  · unfold functionHeading? at hfunction
    split at hfunction
    next form hc =>
      obtain ⟨name, -, rfl⟩ := Option.map_eq_some_iff.mp hfunction
      rw [hc]
      rfl
    next => cases hfunction

end Eligible

/-! ## The declarations of a graph -/

/-- The declarations of a draft are made from its records, one from each, in source order. -/
theorem Draft.forall₂_freeze {d : Draft} {source : List Char}
    {R : Record × Nat → Declaration → Prop}
    (h : ∀ r ∈ d.ordered, ∀ i, R r (declaration source d.ordered i r.1)) :
    List.Forall₂ R d.ordered (d.freeze source).nodes.toList := by
  have hnodes : (d.freeze source).nodes.toList
      = d.ordered.zipIdx.map fun r => declaration source d.ordered r.2 r.1.1 := rfl
  have hnumbered : List.Forall₂ (fun r c => R r (declaration source d.ordered c.2 c.1.1))
      (d.ordered.zipIdx.map Prod.fst) d.ordered.zipIdx := by
    rw [List.forall₂_map_left_iff, List.forall₂_same]
    intro c hc
    exact h c.1 (List.fst_mem_of_mem_zipIdx hc) c.2
  rw [List.zipIdx_map_fst] at hnumbered
  rw [hnodes, List.forall₂_map_right_iff]
  exact hnumbered

/-- **Every eligible node of a tree is declared once, and no other node is.** The sites of the
declarations, in the order of their indexes, are the eligible sites of the tree without repetition,
and each declaration has the kind, the range and the text of its node. -/
theorem Graph.build_declares (source : List Char) (tree : Node) :
    ∃ declared : List Site,
      (∀ i, (Draft.built source tree).siteAt? i = declared[i]?) ∧
      (declared.map (·.address)).Nodup ∧
      (∀ s, s ∈ declared ↔ s ∈ tree.sites ∧ s.Eligible tree source) ∧
      List.Forall₂ (fun s n => s.node.construct.declKind? = some n.kind ∧
          n.span = s.node.label.span source ∧ n.source = String.ofList (s.node.text source))
        declared (Graph.build source tree).nodes.toList := by
  have hperm := (Draft.built source tree).ordered_entries_perm
  have hheading : ∀ r ∈ (Draft.built source tree).ordered,
      r.1.site ∈ tree.sites ∧ r.1.site.heading? source = some r.1.heading := by
    intro r hr
    exact Draft.mem_built_entries.mp (hperm.mem_iff.mp (List.mem_map_of_mem hr))
  refine ⟨(Draft.built source tree).ordered.map (·.1.site), ?_, ?_, ?_, ?_⟩
  · intro i
    rw [List.getElem?_map]
    rfl
  · have haddresses := (hperm.map (·.1.address)).nodup_iff.mpr
      (Draft.built_addresses_nodup source tree)
    rw [List.map_map] at haddresses ⊢
    exact haddresses
  · intro s
    constructor
    · intro hs
      obtain ⟨r, hr, rfl⟩ := List.mem_map.mp hs
      obtain ⟨hsite, hh⟩ := hheading r hr
      exact ⟨hsite, (Site.heading?_isSome_iff hsite).mp (by rw [hh]; rfl)⟩
    · rintro ⟨hs, heligible⟩
      obtain ⟨h, hh⟩ := Option.isSome_iff_exists.mp ((Site.heading?_isSome_iff hs).mpr heligible)
      have hmem := hperm.mem_iff.mpr (Draft.mem_built_entries (e := (s, h)).mpr ⟨hs, hh⟩)
      obtain ⟨r, hr, hrs⟩ := List.mem_map.mp hmem
      exact List.mem_map.mpr ⟨r, hr, congrArg Prod.fst hrs⟩
  · rw [List.forall₂_map_left_iff]
    refine Draft.forall₂_freeze ?_
    intro r hr i
    exact ⟨Site.heading?_kind (hheading r hr).2, rfl, rfl⟩

end CallVicinity
