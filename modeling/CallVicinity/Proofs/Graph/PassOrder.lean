import Mathlib.Data.List.Permutation
import CallVicinity.Proofs.Graph.IdForms
import CallVicinity.Proofs.Graph.SourceOrder

/-!
# The order of the passes

The passes can be run in other orders than the usual one. If both recording passes come before both
linking passes, the slots change with the order, and with them the owners, the edges and the table
of names, but the graph does not:

> `Draft.runAll_order`: on a tree whose declarations have ranges of their own, every such order
> gives the graph of the usual order, and its pass over the calls reports the same number.

Each of the orders finishes the draft (`Draft.Finished`), and its ids are all made from ranges
(`Draft.ByExtent`). Two such drafts have the same declarations in source order, and what the graph
says of them is said in terms of the tree: owners and callers are the declarations around a site.
-/

namespace CallVicinity

namespace Draft

/-! ## Recording in any order -/

/-- All ids are made from the extents of the declarations. -/
def ByExtent (d : Draft) (source : List Char) : Prop :=
  ∀ r ∈ d.records.toList, r.id = spanId r.heading.kind (r.site.node.label.span source)

/-- Two entries have different ranges. -/
def RangesDiffer (e f : Site × Heading) : Prop :=
  ¬ (e.1.node.label.start = f.1.node.label.start ∧ e.1.node.label.stop = f.1.node.label.stop)

instance (e f : Site × Heading) : Decidable (RangesDiffer e f) :=
  inferInstanceAs (Decidable (¬ _))

section Recording

variable {source : List Char}

/-- A node with a range that no record has gets its id from its extent. -/
theorem record_byExtent {d : Draft} (hd : d.ByExtent source) {e : Site × Heading}
    (hmissing : e.1.node.label.missing = false)
    (hne : e.1.node.label.start < e.1.node.label.stop)
    (hnew : ∀ f ∈ d.entries, RangesDiffer f e) : (d.record source e.1 e.2).ByExtent source := by
  have hid : d.spanId? source e.1.node.label e.2.kind
      = some (spanId e.2.kind (e.1.node.label.span source)) := by
    refine spanId?_eq_some.mpr ⟨hmissing, hne, rfl, ?_⟩
    -- a record with the same id would have the same extent, hence the same range
    intro hmem
    obtain ⟨r, hr, hrid⟩ := List.mem_map.mp hmem
    rw [hd r hr] at hrid
    exact hnew (r.site, r.heading) (List.mem_map.mpr ⟨r, hr, rfl⟩)
      (Label.range_of_span (spanId_inj.mp hrid).2)
  intro r hr
  rw [record, hid, Array.toList_push, List.mem_append, List.mem_singleton] at hr
  rcases hr with hold | rfl
  · exact hd r hold
  · rfl

/-- Recording nodes with different ranges gives ids from extents only. -/
theorem foldl_record_byExtent : ∀ (es : List (Site × Heading)) {d : Draft}, d.ByExtent source →
    (∀ e ∈ es, e.1.node.label.missing = false ∧ e.1.node.label.start < e.1.node.label.stop) →
    (d.entries ++ es).Pairwise RangesDiffer →
      (es.foldl (fun d e => d.record source e.1 e.2) d).ByExtent source := by
  intro es
  induction es with
  | nil => intro d hd _ _; exact hd
  | cons e es ih =>
    intro d hd hplain hdiffer
    obtain ⟨hmissing, hne⟩ := hplain e List.mem_cons_self
    have hnew : ∀ f ∈ d.entries, RangesDiffer f e :=
      fun f hf => (List.pairwise_append.mp hdiffer).2.2 f hf e List.mem_cons_self
    rw [List.foldl_cons]
    refine ih (record_byExtent hd hmissing hne hnew)
      (fun f hf => hplain f (List.mem_cons_of_mem _ hf)) ?_
    rw [record_entries, List.append_assoc]
    exact hdiffer

end Recording

section Orders

variable {source : List Char} {tree : Node} {first? second? : Site → Option Heading}

/-- Two recording passes record what they find one after the other. -/
theorem recordAll_recordAll_entries :
    ((empty.recordAll source first? tree.sites).recordAll source second? tree.sites).entries
      = headed first? tree.sites ++ headed second? tree.sites := by
  rw [recordAll_entries, recordAll_entries]
  rfl

/-- Two recording passes that between them find the declared sites record these. -/
theorem recorded_of_perm (hperm : (headed first? tree.sites ++ headed second? tree.sites).Perm
      (headed (·.heading? source) tree.sites)) :
    ((empty.recordAll source first? tree.sites).recordAll source second? tree.sites).Recorded
      source tree where
  lawful := recordAll_lawful (recordAll_lawful (empty_lawful _))
  complete := by
    intro e
    rw [recordAll_recordAll_entries, hperm.mem_iff, mem_headed]
  once := by
    rw [recordAll_recordAll_entries]
    exact (hperm.map _).nodup_iff.mpr (headed_addresses_nodup _ tree)
  unlinked := by
    rw [recordAll_callCount, recordAll_callCount]
    rfl

/-- They give ids from extents only if the declared sites have ranges of their own. -/
theorem byExtent_of_perm (hsep : tree.Separated source)
    (hmissing : ∀ s ∈ tree.sites, (s.heading? source).isSome → s.node.label.missing = false)
    (hperm : (headed first? tree.sites ++ headed second? tree.sites).Perm
      (headed (·.heading? source) tree.sites)) :
    ((empty.recordAll source first? tree.sites).recordAll source second? tree.sites).ByExtent
      source := by
  have hmem : ∀ e ∈ headed first? tree.sites ++ headed second? tree.sites,
      e.1 ∈ tree.sites ∧ (e.1.heading? source).isSome := by
    intro e he
    obtain ⟨hs, hh⟩ := mem_headed.mp (hperm.mem_iff.mp he)
    exact ⟨hs, by rw [hh]; rfl⟩
  rw [recordAll_eq, recordAll_eq, ← List.foldl_append]
  refine foldl_record_byExtent _ (fun r hr => absurd hr List.not_mem_nil) ?_ ?_
  · intro e he
    obtain ⟨hs, hh⟩ := hmem e he
    exact ⟨hmissing e.1 hs hh, hsep.nonempty e.1 hs hh⟩
  · -- sites with different addresses have different ranges
    have honce := (hperm.map (·.1.address)).nodup_iff.mpr (headed_addresses_nodup _ tree)
    refine (List.pairwise_map.mp honce).imp_of_mem ?_
    intro e f he hf hef hrange
    obtain ⟨hes, heh⟩ := hmem e he
    obtain ⟨hfs, hfh⟩ := hmem f hf
    exact hef (hsep.distinct _ hes _ hfs heh hfh hrange.1 hrange.2)

/-! ## Linking in either order -/

theorem linkOwners_byExtent {d : Draft} (hd : d.ByExtent source) :
    d.linkOwners.ByExtent source := by
  intro r hr
  rw [linkOwners, Array.toList_map] at hr
  obtain ⟨q, hq, rfl⟩ := List.mem_map.mp hr
  exact hd q hq

theorem linkCalls_byExtent {d : Draft} (hd : d.ByExtent source) (sites : List Site) :
    (d.linkCalls source sites).1.ByExtent source := by
  intro r hr
  obtain ⟨q, hq, hsite, hid, hheading⟩ := exists_mem_of_bare (d.linkCalls_bare source sites) hr
  rw [hsite, hid, hheading]
  exact hd q hq

/-- Calls first, then owners. -/
theorem Recorded.calls_owners {d : Draft} (h : d.Recorded source tree) :
    (d.linkCalls source tree.sites).1.linkOwners.Finished source tree := by
  refine h.finished (linkOwners_lawful (linkCalls_lawful h.lawful _)) ?_ ?_ ?_
  · rw [linkOwners_entries, linkCalls_entries]
  · intro slot r hr
    rw [linkOwners_owner hr, enclosing?_congr (d.linkCalls_entries source tree.sites)]
  · intro a b
    rw [← linkCalls_calls_of_unlinked h.unlinked]
    exact linkOwners_lists fun _ _ => rfl

end Orders

/-! ## Finished drafts freeze alike -/

/-- Two finished drafts of one tree with the same declarations in source order. -/
structure Alike (source : List Char) (tree : Node) (d d' : Draft) : Prop where
  left : d.Finished source tree
  right : d'.Finished source tree
  order : d.ordered.map (fun r => (r.1.site, r.1.heading))
    = d'.ordered.map fun r => (r.1.site, r.1.heading)

section Alike

variable {source : List Char} {tree : Node} {d d' : Draft}

theorem Alike.symm (h : Alike source tree d d') : Alike source tree d' d :=
  ⟨h.right, h.left, h.order.symm⟩

/-- Finished drafts of a tree whose declarations have ranges of their own are alike. -/
theorem Finished.alike (hd : d.Finished source tree) (hd' : d'.Finished source tree)
    (hsep : tree.Separated source) : Alike source tree d d' := by
  refine ⟨hd, hd', hd.ordered_eq hsep ?_ (List.pairwise_map.mpr d'.ordered_sorted)⟩
  exact d'.ordered_entries_perm.trans (hd'.headed_perm.symm.trans hd.headed_perm)

/-- What one draft has at an index the other one has there, in another slot. -/
theorem Alike.ordered (h : Alike source tree d d') {i slot : Nat} {r : Record}
    (hi : d.ordered[i]? = some (r, slot)) :
    ∃ r' slot', d'.ordered[i]? = some (r', slot') ∧ r'.site = r.site ∧ r'.heading = r.heading := by
  have hget : (d'.ordered.map fun r => (r.1.site, r.1.heading))[i]?
      = some (r.site, r.heading) := by
    rw [← h.order, List.getElem?_map, hi]
    rfl
  rw [List.getElem?_map] at hget
  obtain ⟨⟨r', slot'⟩, hi', hrr'⟩ := Option.map_eq_some_iff.mp hget
  obtain ⟨hsite, hheading⟩ := Prod.mk.inj hrr'
  exact ⟨r', slot', hi', hsite, hheading⟩

theorem Alike.siteAt? (h : Alike source tree d d') : d.siteAt? = d'.siteAt? := by
  funext i
  have hget := congrArg (fun es => (es[i]?).map Prod.fst) h.order
  simp only [List.getElem?_map, Option.map_map] at hget
  exact hget

/-- The declarations of alike drafts have the same headings. -/
theorem Alike.exists_node? (h : Alike source tree d d') {i : Nat} {n : Declaration}
    (hn : (d.freeze source).node? i = some n) :
    ∃ n', (d'.freeze source).node? i = some n' ∧ n'.kind = n.kind ∧ n'.name = n.name := by
  obtain ⟨r, slot, hi, rfl⟩ := freeze_node?_eq_some.mp hn
  obtain ⟨r', slot', hi', -, hheading⟩ := h.ordered hi
  refine ⟨_, freeze_node?_eq_some.mpr ⟨r', slot', hi', rfl⟩, ?_, ?_⟩
  · show r'.heading.kind = r.heading.kind
    rw [hheading]
  · show r'.heading.name = r.heading.name
    rw [hheading]

theorem Alike.deepest (h : Alike source tree d d') {p : DeclKind → Prop} {s : Site} {i : Nat}
    (hi : (d.freeze source).Deepest d.siteAt? (fun n => p n.kind) s i) :
    (d'.freeze source).Deepest d'.siteAt? (fun n => p n.kind) s i := by
  obtain ⟨n, t, hn, hp, ht, hst, hdeep⟩ := hi
  obtain ⟨n', hn', hkind, -⟩ := h.exists_node? hn
  rw [h.siteAt?] at ht hdeep
  refine ⟨n', t, hn', ?_, ht, hst, ?_⟩
  · show p n'.kind
    rw [hkind]
    exact hp
  · intro k m' u hm' hp' hu hsu
    obtain ⟨m, hm, hkind', -⟩ := h.symm.exists_node? hm'
    refine hdeep k m u hm ?_ hu hsu
    show p m.kind
    rw [hkind']
    exact hp'

/-- What is around a site is the same in alike drafts. -/
theorem Alike.isCaller (h : Alike source tree d d') {s : Site} {i : Nat}
    (hi : (d.freeze source).IsCaller d.siteAt? s i) :
    (d'.freeze source).IsCaller d'.siteAt? s i := by
  rcases hi with hfun | ⟨hall, hclass⟩
  · exact Or.inl (h.deepest (p := (· ≠ .classDef)) hfun)
  · refine Or.inr ⟨?_, h.deepest (p := (· = .classDef)) hclass⟩
    intro k m' u hm' hu hsu
    obtain ⟨m, hm, hkind, -⟩ := h.symm.exists_node? hm'
    rw [← h.siteAt?] at hu
    rw [← hkind]
    exact hall k m u hm hu hsu

theorem Alike.owner (h : Alike source tree d d') {i p : Nat}
    (hi : (d.freeze source).Owner i p) : (d'.freeze source).Owner i p := by
  obtain ⟨n, hn, -⟩ := id hi
  obtain ⟨r, slot, hr, -⟩ := freeze_node?_eq_some.mp hn
  have hs := siteAt?_of_ordered hr
  have hcaller := h.isCaller ((h.left.owner_iff hs).mp hi)
  rw [h.siteAt?] at hs
  exact (h.right.owner_iff hs).mpr hcaller

theorem Alike.calls (h : Alike source tree d d') {i j : Nat}
    (hij : (d.freeze source).Calls i j) : (d'.freeze source).Calls i j := by
  obtain ⟨m, hm⟩ := Graph.exists_node? ((freeze_calls h.left.lawful).mp hij).lt_size.2
  obtain ⟨m', hm', -, hname⟩ := h.exists_node? hm
  obtain ⟨s, hs, hkey, hcaller⟩ := (h.left.calls_iff hm).mp hij
  refine (h.right.calls_iff hm').mpr ⟨s, hs, ?_, h.isCaller hcaller⟩
  rw [hname]
  exact hkey

theorem Alike.calledBy (h : Alike source tree d d') {i j : Nat}
    (hij : (d.freeze source).CalledBy j i) : (d'.freeze source).CalledBy j i := by
  have hcalls : (d.freeze source).Calls i j :=
    (freeze_calls h.left.lawful).mpr ((freeze_calledBy h.left.lawful).mp hij)
  exact (freeze_calledBy h.right.lawful).mpr ((freeze_calls h.right.lawful).mp (h.calls hcalls))

/-- **The declarations of alike drafts are the same**, if all ids are made from extents. -/
theorem Alike.node?_eq (h : Alike source tree d d') (hid : d.ByExtent source)
    (hid' : d'.ByExtent source) {i : Nat} {n : Declaration}
    (hn : (d.freeze source).node? i = some n) : (d'.freeze source).node? i = some n := by
  obtain ⟨r, slot, hi, rfl⟩ := freeze_node?_eq_some.mp hn
  obtain ⟨r', slot', hi', hsite, hheading⟩ := h.ordered hi
  have hn' : (d'.freeze source).node? i
      = some (declaration source d'.ordered i r') :=
    freeze_node?_eq_some.mpr ⟨r', slot', hi', rfl⟩
  have howned := freeze_owned h.left.lawful source
  have howned' := freeze_owned h.right.lawful source
  have hids : r'.id = r.id := by
    rw [hid' r' (Array.mem_toList_iff.mpr (Array.mem_of_getElem? (record_of_ordered hi'))),
      hid r (Array.mem_toList_iff.mpr (Array.mem_of_getElem? (record_of_ordered hi))),
      hsite, hheading]
  have howner : (declaration source d'.ordered i r').owner
      = (declaration source d.ordered i r).owner := by
    refine Option.ext fun p => ?_
    rw [← Graph.owner_iff hn', ← Graph.owner_iff hn]
    exact ⟨h.symm.owner, h.owner⟩
  have hchildren : (declaration source d'.ordered i r').children
      = (declaration source d.ordered i r).children := by
    refine IndexSet.ascending_ext (howned'.ascending hn') (howned.ascending hn) fun c => ?_
    rw [howned'.children hn', howned.children hn]
    exact ⟨h.symm.owner, h.owner⟩
  have hcalls : (declaration source d'.ordered i r').calls
      = (declaration source d.ordered i r).calls := by
    refine IndexSet.ext_mem fun j => ?_
    rw [Graph.mem_calls_iff hn', Graph.mem_calls_iff hn]
    exact ⟨h.symm.calls, h.calls⟩
  have hcalledBy : (declaration source d'.ordered i r').calledBy
      = (declaration source d.ordered i r).calledBy := by
    refine IndexSet.ext_mem fun j => ?_
    rw [Graph.mem_calledBy_iff hn', Graph.mem_calledBy_iff hn]
    exact ⟨h.symm.calledBy, h.calledBy⟩
  rw [hn']
  simp only [declaration] at howner hchildren hcalls hcalledBy ⊢
  rw [howner, hchildren, hcalls, hcalledBy, hids, hsite, hheading]

/-- Alike drafts freeze to the same graph. -/
theorem Alike.freeze_eq (h : Alike source tree d d') (hid : d.ByExtent source)
    (hid' : d'.ByExtent source) : d.freeze source = d'.freeze source := by
  have hnodes : (d.freeze source).nodes = (d'.freeze source).nodes := by
    refine Array.ext_getElem? fun i => Option.ext fun n => ?_
    exact ⟨h.node?_eq hid hid', h.symm.node?_eq hid' hid⟩
  cases hg : d.freeze source
  cases hg' : d'.freeze source
  rw [hg, hg'] at hnodes
  exact congrArg Graph.mk hnodes

end Alike

/-! ## The orders -/

section Build

variable {source : List Char} {tree : Node} (hsep : tree.Separated source)
  (hmissing : ∀ s ∈ tree.sites, (s.heading? source).isSome → s.node.label.missing = false)

include hsep hmissing

/-- Either order of the recording passes records the declared sites, with ids from extents. -/
theorem runAll_recorded {first : List Pass}
    (hfirst : first ∈ [[Pass.classes, .functions], [.functions, .classes]]) :
    (empty.runAll source tree.sites first).Recorded source tree ∧
      (empty.runAll source tree.sites first).ByExtent source := by
  have hperm := (built_finished source tree).headed_perm.symm
  rw [built_entries] at hperm
  simp only [List.mem_cons, List.not_mem_nil, or_false] at hfirst
  rcases hfirst with rfl | rfl
  · exact ⟨recorded_of_perm hperm, byExtent_of_perm hsep hmissing hperm⟩
  · have hperm' := List.perm_append_comm.trans hperm
    exact ⟨recorded_of_perm hperm', byExtent_of_perm hsep hmissing hperm'⟩

/-- **Every finished draft with ids from extents freezes to the graph of the tree.** -/
theorem Finished.freeze_eq_build {d : Draft} (hd : d.Finished source tree)
    (hid : d.ByExtent source) : d.freeze source = Graph.build source tree := by
  have hbuilt : (built source tree).ByExtent source :=
    linkCalls_byExtent (linkOwners_byExtent (runAll_recorded hsep hmissing List.mem_cons_self).2) _
  exact (hd.alike (built_finished source tree) hsep).freeze_eq hid hbuilt

/-- **The pass over the calls reports the edges of the graph of the tree**, if it is where a
finished draft has its edges from. -/
theorem Finished.report_eq_build {d d' : Draft} (hd' : d'.Finished source tree)
    (hid : d'.ByExtent source) (hnone : d.callCount = 0)
    (hcount : d'.callCount = (d.linkCalls source tree.sites).1.callCount) :
    (d.linkCalls source tree.sites).2 = (Graph.build source tree).edgeCount := by
  rw [linkCalls_callCount, hnone, Nat.zero_add] at hcount
  rw [← hcount, ← freeze_edgeCount hd'.lawful, hd'.freeze_eq_build hsep hmissing hid]

end Build

end Draft

/-- An order of the four passes, each run once, in which both recording passes come before both
linking passes. -/
def Pass.RecordsFirst (passes : List Pass) : Prop :=
  passes.Perm Pass.usual ∧
    ∀ p ∈ [Pass.classes, .functions], ∀ q ∈ [Pass.ownership, .calls], [p, q].Sublist passes

/-- There are four such orders. -/
theorem Pass.RecordsFirst.cases {passes : List Pass} (h : Pass.RecordsFirst passes) :
    ∃ first ∈ [[Pass.classes, .functions], [.functions, .classes]],
      passes = first ++ [.ownership, .calls] ∨ passes = first ++ [.calls, .ownership] := by
  have hall : ∀ ps ∈ Pass.usual.permutations',
      (∀ p ∈ [Pass.classes, .functions], ∀ q ∈ [Pass.ownership, .calls], [p, q].Sublist ps) →
      ∃ first ∈ [[Pass.classes, .functions], [.functions, .classes]],
        ps = first ++ [.ownership, .calls] ∨ ps = first ++ [.calls, .ownership] := by
    decide +kernel
  exact hall passes (List.mem_permutations'.mpr h.1) h.2

namespace Draft

/-- **The order of the passes does not matter** as long as both recording passes come before both
linking passes: on a tree whose declarations have ranges of their own, the graph is the same in
every respect, and the pass over the calls reports the same number, that of the edges of the
graph. -/
theorem runAll_order (source : List Char) (tree : Node) (hsep : tree.Separated source)
    (hmissing : ∀ s ∈ tree.sites, (s.heading? source).isSome → s.node.label.missing = false)
    (passes : List Pass) (horder : Pass.RecordsFirst passes) :
    (empty.runAll source tree.sites passes).freeze source = Graph.build source tree ∧
    (∀ before after, passes = before ++ Pass.calls :: after →
      (empty.runAll source tree.sites before).report? source tree.sites .calls
        = some (Graph.build source tree).edgeCount) ∧
    (empty.runAll source tree.sites [.classes, .functions, .ownership]).report? source tree.sites
      .calls = some (Graph.build source tree).edgeCount := by
  obtain ⟨first, hfirst, hcases⟩ := horder.cases
  obtain ⟨hrec, hid⟩ := runAll_recorded hsep hmissing hfirst
  have hnotin : ∀ ps ∈ [[Pass.classes, .functions], [.functions, .classes]], Pass.calls ∉ ps := by
    decide
  have husual : (empty.runAll source tree.sites [.classes, .functions, .ownership]).report? source
      tree.sites .calls = some (Graph.build source tree).edgeCount := by
    obtain ⟨hrec', hid'⟩ := runAll_recorded hsep hmissing List.mem_cons_self
    exact congrArg some (hrec'.owners_calls.report_eq_build hsep hmissing
      (linkCalls_byExtent (linkOwners_byExtent hid') _)
      ((linkOwners_callCount _).trans hrec'.unlinked) rfl)
  -- the pass over the calls runs once, so that what comes before it is known
  rcases hcases with rfl | rfl
  · have hid' := linkCalls_byExtent (linkOwners_byExtent hid) tree.sites
    have hgraph := hrec.owners_calls.freeze_eq_build hsep hmissing hid'
    refine ⟨by rw [runAll_append]; exact hgraph, ?_, husual⟩
    intro before after hsplit
    have hsplit' : (first ++ [.ownership]) ++ Pass.calls :: [] = before ++ Pass.calls :: after := by
      rw [← hsplit, List.append_assoc]
      rfl
    have hbefore : Pass.calls ∉ first ++ [.ownership] := by simp [hnotin first hfirst]
    obtain ⟨rfl, -⟩ := (List.append_cons_inj_of_notMem hbefore (by simp)).mp hsplit'
    rw [runAll_append]
    exact congrArg some (hrec.owners_calls.report_eq_build hsep hmissing hid'
      ((linkOwners_callCount _).trans hrec.unlinked) rfl)
  · have hid' := linkOwners_byExtent (linkCalls_byExtent hid tree.sites)
    have hgraph := hrec.calls_owners.freeze_eq_build hsep hmissing hid'
    refine ⟨by rw [runAll_append]; exact hgraph, ?_, husual⟩
    intro before after hsplit
    obtain ⟨rfl, -⟩ := (List.append_cons_inj_of_notMem (hnotin first hfirst) (by simp)).mp hsplit
    exact congrArg some (hrec.calls_owners.report_eq_build hsep hmissing hid' hrec.unlinked
      (linkOwners_callCount _))

/-- The text of a class whose method calls the function after the class. -/
def callingMethodText : List Char :=
  "class C\x7bm()\x7bf()\x7d\x7dfunction f()\x7b\x7d".toList

/-- The tree of that text. -/
def callingMethod : Node :=
  .mk ⟨.other, 0, 31, true, false, false, []⟩ [
    .mk ⟨.classDeclaration, 0, 17, true, false, false, []⟩ [
      .mk ⟨.identifier, 6, 7, true, false, false, [.name]⟩ [],
      .mk ⟨.other, 7, 17, true, false, false, []⟩ [
        .mk ⟨.methodDefinition, 8, 16, true, false, false, []⟩ [
          .mk ⟨.propertyIdentifier, 8, 9, true, false, false, [.name]⟩ [],
          .mk ⟨.other, 11, 16, true, false, false, []⟩ [
            .mk ⟨.callExpression, 12, 15, true, false, false, []⟩ [
              .mk ⟨.identifier, 12, 13, true, false, false, [.function]⟩ [],
              .mk ⟨.arguments, 13, 15, true, false, false, [.arguments]⟩ []]]]]],
    .mk ⟨.functionDeclaration, 17, 31, true, false, false, []⟩ [
      .mk ⟨.identifier, 26, 27, true, false, false, [.name]⟩ []]]

/-- With both pairs of passes the other way round the graph is the same. -/
theorem runAll_order_callingMethod :
    callingMethod.Separated callingMethodText ∧
    (∀ s ∈ callingMethod.sites, (s.heading? callingMethodText).isSome →
      s.node.label.missing = false) ∧
    (headed (·.heading? callingMethodText) callingMethod.sites).map (·.2)
      = [⟨.classDef, "C", ""⟩, ⟨.method, "m", ""⟩, ⟨.function, "f", ""⟩] ∧
    Pass.RecordsFirst [.functions, .classes, .calls, .ownership] ∧
    (empty.runAll callingMethodText callingMethod.sites
        [.functions, .classes, .calls, .ownership]).freeze callingMethodText
      = Graph.build callingMethodText callingMethod ∧
    (empty.runAll callingMethodText callingMethod.sites [.functions, .classes]).report?
        callingMethodText callingMethod.sites .calls
      = (empty.runAll callingMethodText callingMethod.sites
          [.classes, .functions, .ownership]).report? callingMethodText callingMethod.sites
            .calls := by
  have hsep : callingMethod.Separated callingMethodText := ⟨by decide +kernel, by decide +kernel⟩
  have hmissing : ∀ s ∈ callingMethod.sites, (s.heading? callingMethodText).isSome →
      s.node.label.missing = false := by decide +kernel
  have horder : Pass.RecordsFirst [.functions, .classes, .calls, .ownership] :=
    ⟨by decide, by decide⟩
  obtain ⟨hgraph, hreport, husual⟩ :=
    runAll_order callingMethodText callingMethod hsep hmissing _ horder
  refine ⟨hsep, hmissing, by decide +kernel, horder, hgraph, ?_⟩
  rw [hreport [.functions, .classes] [.ownership] rfl, husual]

end Draft

end CallVicinity
