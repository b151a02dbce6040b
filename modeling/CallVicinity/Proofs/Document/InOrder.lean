import CallVicinity.Proofs.Document.Growth
import CallVicinity.Proofs.Graph.SourceOrder

/-!
# Documents in source order

A document nests what it shows in owners, and owners are not the nearest declarations around. Read
from the top it still follows the text, if the tree is that of a parser:

> `Analysis.slice_in_source_order`: indexes follow the pre-order of the tree, owners come before
> what they own, the forest lists all indexes in order, and a document shows what is included in
> ascending order of indexes.
-/

namespace CallVicinity

/-- The forest, restricted to what a coherent selection includes, lists that in ascending order. -/
theorem Graph.Owned.restrict_eq {g : Graph} {depth : Nat → Nat} {s : Selection}
    (hg : g.Owned depth) (hc : g.Consecutive) (hs : s.Coherent g) {f : Forest}
    (hroots : f.map Tree.index = g.roots) (hall : Tree.CompleteAll g f) :
    Tree.indexesAll (Forest.restrict s.included f) = s.included.toList := by
  have hperm := hg.restrict_perm hs hroots hall
  refine IndexSet.ascending_ext ?_ s.included.ascending fun i => hperm.mem_iff
  have hrange := hg.indexes_eq_range hc hroots hall
  rw [Forest.indexes_eq] at hrange
  rw [hg.indexes_restrict hs.closedUp f hall, hrange]
  exact List.pairwise_lt_range.filter _

namespace Analysis

/-- **What is shown follows the text.** In the tree of a parser whose declarations have ranges of
their own, declaration `i` is the `i`-th declared node in pre-order. Owners come before what they
own, the forest of all declarations lists them in order, and a document shows the included ones in
ascending order. -/
theorem slice_in_source_order (src : Source) (htree : ∀ s ∈ src.tree.sites, s.node.Orderly)
    (hsep : src.tree.Separated src.text.toList) :
    let g := (ofSource src).graph
    let declared := src.tree.declared src.text.toList
    (∀ i, (Draft.built src.text.toList src.tree).siteAt? i = declared[i]?) ∧
    (∀ i n, g.node? i = some n → ∃ s, declared[i]? = some s ∧
      s.heading? src.text.toList = some ⟨n.kind, n.name, n.params⟩ ∧
      n.span = s.node.label.span src.text.toList) ∧
    (∀ i n, g.node? i = some n → (∀ p, n.owner = some p → p < i) ∧ ∀ c ∈ n.children, i < c) ∧
    (∃ f, g.forest? = some f ∧ f.indexes = List.range g.size) ∧
    ∀ r o doc, o.includeChildren = true → (ofSource src).slice r o = .ok doc →
      ∃ sel, g.select r = .ok sel ∧ sel.included.toList.Pairwise (· < ·) ∧
        List.Forall₂ (g.ShownAs sel o) sel.included.toList (Outline.flattenAll doc.nodes) := by
  intro g declared
  have hsite := Draft.siteAt?_built htree hsep
  have hc : g.Consecutive := Draft.built_consecutive htree hsep
  obtain ⟨depth, hg⟩ := ofSource_owned src
  obtain ⟨f, hf, hroots, hall⟩ := hg.exists_forest
  refine ⟨hsite, ?_, ?_, ⟨f, hf, hg.indexes_eq_range hc hroots hall⟩, ?_⟩
  · intro i n hn
    obtain ⟨r, slot, hi, rfl⟩ := Draft.freeze_node?_eq_some.mp hn
    obtain ⟨s, -, hs, hh⟩ := Draft.built_declared hn
    obtain rfl : r.site = s := Option.some.inj ((Draft.siteAt?_of_ordered hi).symm.trans hs)
    exact ⟨r.site, (hsite i).symm.trans hs, hh, rfl⟩
  · intro i n hn
    refine ⟨fun p hp => hc.owner_lt ⟨n, hn, hp⟩, fun c hmem => ?_⟩
    exact hc.owner_lt ((hg.children hn c).mp hmem)
  · intro r o doc ho hslice
    have he := ofSource_edgesInside src
    obtain ⟨sel, hsel, hdoc⟩ := exists_select_of_slice hslice
    have hs := hg.coherent_of_select he hsel
    refine ⟨sel, hsel, sel.included.ascending, ?_⟩
    obtain ⟨doc', hdoc', -, hshown⟩ :=
      hg.exists_document_of_forest he hs (ofSource src).source.origin ho hf hroots hall
    obtain rfl := Option.some.inj (hdoc.symm.trans hdoc')
    rwa [hg.restrict_eq hc hs hroots hall] at hshown

/-- A class with a method inside a function, and a function after the class. -/
def classInFunction : Source where
  path := "inner.js"
  dialect := .javascript
  text := "function f()\x7bclass C\x7bm()\x7b\x7d\x7dfunction g()\x7b\x7d\x7d"
  tree :=
    .mk ⟨.other, 0, 42, true, false, false, []⟩ [
      .mk ⟨.functionDeclaration, 0, 42, true, false, false, []⟩ [
        .mk ⟨.identifier, 9, 10, true, false, false, [.name]⟩ [],
        .mk ⟨.other, 12, 42, true, false, false, []⟩ [
          .mk ⟨.classDeclaration, 13, 27, true, false, false, []⟩ [
            .mk ⟨.identifier, 19, 20, true, false, false, [.name]⟩ [],
            .mk ⟨.other, 20, 27, true, false, false, []⟩ [
              .mk ⟨.methodDefinition, 21, 26, true, false, false, []⟩ [
                .mk ⟨.propertyIdentifier, 21, 22, true, false, false, [.name]⟩ []]]],
          .mk ⟨.functionDeclaration, 27, 41, true, false, false, []⟩ [
            .mk ⟨.identifier, 36, 37, true, false, false, [.name]⟩ []]]]]

/-- The method stands in a class and the class in a function, and the declarations are listed as the
text has them. -/
theorem slice_in_source_order_classInFunction :
    (∀ s ∈ classInFunction.tree.sites, s.node.Orderly) ∧
    classInFunction.tree.Separated classInFunction.text.toList ∧
    (classInFunction.tree.declared classInFunction.text.toList).map
        (·.heading? classInFunction.text.toList)
      = [some ⟨.function, "f", ""⟩, some ⟨.classDef, "C", ""⟩, some ⟨.method, "m", ""⟩,
          some ⟨.function, "g", ""⟩] ∧
    (∀ i n, (ofSource classInFunction).graph.node? i = some n →
      (∀ p, n.owner = some p → p < i) ∧ ∀ c ∈ n.children, i < c) ∧
    (∃ f, (ofSource classInFunction).graph.forest? = some f ∧
      f.indexes = List.range (ofSource classInFunction).graph.size) ∧
    ∃ doc sel, (ofSource classInFunction).slice ⟨["m"], 0, 0⟩ {} = .ok doc ∧
      (ofSource classInFunction).graph.select ⟨["m"], 0, 0⟩ = .ok sel ∧
      sel.included.toList.Pairwise (· < ·) ∧
      List.Forall₂ ((ofSource classInFunction).graph.ShownAs sel {}) sel.included.toList
        (Outline.flattenAll doc.nodes) := by
  have htree : ∀ s ∈ classInFunction.tree.sites, s.node.Orderly := by decide +kernel
  have hsep : classInFunction.tree.Separated classInFunction.text.toList :=
    ⟨by decide +kernel, by decide +kernel⟩
  obtain ⟨-, -, howners, hforest, hshown⟩ := slice_in_source_order classInFunction htree hsep
  refine ⟨htree, hsep, by decide +kernel, howners, hforest, ?_⟩
  have hsite : ∃ s ∈ classInFunction.tree.sites,
      s.heading? classInFunction.text.toList = some ⟨.method, "m", ""⟩ := by decide +kernel
  obtain ⟨s, hs, hheading⟩ := hsite
  obtain ⟨doc, hslice⟩ := exists_slice_name classInFunction hs hheading (o := {}) rfl 0 0
  obtain ⟨sel, hsel⟩ := hshown ⟨["m"], 0, 0⟩ {} doc rfl hslice
  exact ⟨doc, sel, hslice, hsel⟩

end Analysis

end CallVicinity
