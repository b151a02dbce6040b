import CallVicinity.Proofs.Document.Growth
import CallVicinity.Proofs.Graph.IdForms
import CallVicinity.Proofs.Selection.SeedLists
import CallVicinity.Proofs.Selection.Tokens

/-!
# Asking again for the seeds of a document

A document lists the ids of its seeds. They can be copied out of it as a list with commas and used
as tokens, in place of the names or parts of names that were asked for at first:

> `Analysis.slice_seeds_again`: the list is read back as it was, it stands for the same
> declarations, and the same document comes out.

Three things are needed. Ids hold neither commas nor blanks, so that a list of them falls apart into
the same ids (`Seeds.parseList_intercalate`). No two declarations have the same id. And a token that
is an id stands for the declaration with that id alone, whatever the names of the others are
(`Graph.matching_id`).
-/

namespace CallVicinity

/-! ## Lists with commas -/

/-- **A list of plain tokens is read back as it was written.** -/
theorem Seeds.parseList_intercalate {tokens : List String}
    (h : ∀ token ∈ tokens, token.toList ≠ [] ∧ ∀ c ∈ token.toList, Text.Plain c) :
    Seeds.parseList (String.intercalate "," tokens) = tokens := by
  have htokens : ∀ token ∈ tokens, IsToken token := by
    intro token htoken
    obtain ⟨hne, hplain⟩ := h token htoken
    refine ⟨?_, fun hcomma => (hplain ',' hcomma).1 rfl, ?_, ?_⟩
    · exact fun he => hne (String.toList_eq_nil_iff.mpr he)
    · exact fun c hc => (hplain c (List.mem_of_mem_head? hc)).2
    · exact fun c hc => (hplain c (List.mem_of_getLast? hc)).2
  -- the list is one of entries with nothing around their tokens
  obtain ⟨words, rfl⟩ : ∃ words : List {token // IsToken token}, words.map (·.val) = tokens :=
    ⟨tokens.attach.map fun token => ⟨token.val, htokens _ token.property⟩, by simp⟩
  have hentries := parseList_listing (words.map Entry.bare)
  rw [tokens_bare, listing_bare] at hentries
  exact hentries

/-! ## Ids as tokens -/

namespace Graph

variable {g : Graph}

/-- A token that is an id stands for the declaration with that id alone. -/
theorem matching_id (hids : g.ids.Nodup) {i : Nat} {n : Declaration} (hn : g.node? i = some n) :
    g.matching n.id = IndexSet.ofList [i] := by
  have hlook : g.indexOf? n.id = some i := (indexOf?_eq_some hids).mpr ⟨n, hn, rfl⟩
  unfold matching
  rw [hlook]

/-- The ids of some declarations stand for these declarations. -/
theorem matchingAny_ids (hids : g.ids.Nodup) {seeds : IndexSet} {ns : List Declaration}
    (hns : List.Forall₂ (fun i n => g.node? i = some n) seeds.toList ns) :
    g.matchingAny (ns.map (·.id)) = seeds := by
  refine IndexSet.ext_mem fun j => ?_
  have hone : ∀ i n, g.node? i = some n → (j = i ↔ j ∈ g.matching n.id) := by
    intro i n hn
    rw [matching_id hids hn, IndexSet.mem_ofList, List.mem_singleton]
  calc j ∈ g.matchingAny (ns.map (·.id))
      ↔ ∃ n ∈ ns, j ∈ g.matching n.id := by simp [mem_matchingAny]
    _ ↔ ∃ i ∈ seeds.toList, j = i := (exists_mem_iff_of_forall₂ hns hone).symm
    _ ↔ j ∈ seeds := by simp [IndexSet.mem_toList]

/-- The ids of the seeds of a selection of the graph, as its documents list them, stand for the
seeds. -/
theorem matchingAny_document_seeds (hids : g.ids.Nodup) {sel : Selection} {origin : Origin}
    {o : Options} {doc : Document} (hlt : ∀ i ∈ sel.seeds, i < g.size)
    (hdoc : g.document? origin sel o = some doc) :
    g.matchingAny doc.seeds = sel.seeds ∧
      ∀ id ∈ doc.seeds, ∃ i n, g.node? i = some n ∧ n.id = id := by
  obtain ⟨ns, hns, hseeds, -⟩ := document?_eq_some hdoc
  have hlook : ∀ i ∈ sel.seeds.toList, ∃ n, g.node? i = some n ∧ g.node? i = some n := by
    intro i hi
    obtain ⟨n, hn⟩ := exists_node? (hlt i hi)
    exact ⟨n, hn, hn⟩
  obtain ⟨ns', hns', hall⟩ := exists_mapM (P := fun i n => g.node? i = some n) hlook
  rw [hns] at hns'
  obtain rfl := Option.some.inj hns'
  rw [hseeds]
  refine ⟨matchingAny_ids hids hall, ?_⟩
  intro id hid
  obtain ⟨n, hn, rfl⟩ := List.mem_map.mp hid
  obtain ⟨i, -, hi⟩ := (exists_mem_iff_of_forall₂ hall (p := fun i => g.node? i = some n)
    (q := fun m => m = n) fun i m hm => by rw [hm, Option.some.injEq]).mpr ⟨n, hn, rfl⟩
  exact ⟨i, n, hi, rfl⟩

/-- Asking for the radius of the outline that a request ends up with changes nothing. -/
theorem select_reach {tokens : List String} {f c : Nat} {s : Selection} :
    g.select ⟨tokens, f, Request.reach ⟨tokens, f, c⟩⟩ = .ok s ↔
      g.select ⟨tokens, f, c⟩ = .ok s := by
  have hreach : Request.reach ⟨tokens, f, Request.reach ⟨tokens, f, c⟩⟩
      = Request.reach ⟨tokens, f, c⟩ := by
    show max (max c f) f = max c f
    omega
  rw [select_eq_ok, select_eq_ok]
  unfold selectFrom?
  rw [hreach]

end Graph

/-! ## Documents -/

namespace Analysis

theorem ofSource_ids_nodup (src : Source) : (ofSource src).graph.ids.Nodup := by
  refine (Draft.freeze_ids_perm _ src.text.toList).nodup_iff.mpr ?_
  exact Draft.runAll_ids_nodup Pass.usual List.nodup_nil

theorem ofSource_idForm (src : Source) {i : Nat} {n : Declaration}
    (hn : (ofSource src).graph.node? i = some n) : Draft.IdForm n.kind n.span n.id :=
  (Draft.runAll_identified Pass.usual (Draft.empty_identified src.text.toList)).freeze hn

/-- **The seeds of a document can be asked for again.** Written as a list with commas they are read
back as they are. As tokens they stand for the seeds of the selection, and with the radii that were
asked for, or with those that the document shows, the same document comes out. -/
theorem slice_seeds_again (src : Source) (r : Request) (o : Options) {doc : Document}
    (h : (ofSource src).slice r o = .ok doc) :
    Seeds.parseList (String.intercalate "," doc.seeds) = doc.seeds ∧
    (∃ sel, (ofSource src).graph.select r = .ok sel ∧
      (ofSource src).graph.resolve doc.seeds = .ok sel.seeds) ∧
    (ofSource src).slice ⟨doc.seeds, r.fullRadius, r.contextRadius⟩ o = .ok doc ∧
    (ofSource src).slice ⟨doc.seeds, doc.fullRadius, doc.contextRadius⟩ o = .ok doc := by
  obtain ⟨sel, hsel, hdoc⟩ := exists_select_of_slice h
  obtain ⟨hnonempty, hfrom⟩ := Graph.select_eq_ok.mp hsel
  obtain ⟨ds, included, -, -, hsel'⟩ := Graph.selectFrom?_eq_some hfrom
  have hseeds : sel.seeds = (ofSource src).graph.matchingAny r.seeds := by rw [hsel']
  have hlt : ∀ i ∈ sel.seeds, i < (ofSource src).graph.size := by
    intro i hi
    rw [hseeds] at hi
    exact Graph.matchingAny_lt hi
  obtain ⟨hmatch, hids⟩ := Graph.matchingAny_document_seeds (ofSource_ids_nodup src) hlt hdoc
  have hagain : (ofSource src).graph.select ⟨doc.seeds, r.fullRadius, r.contextRadius⟩ = .ok sel :=
    (Graph.select_congr (hmatch.trans hseeds)).mpr hsel
  refine ⟨?_, ⟨sel, hsel, ?_⟩, slice_eq_ok hagain hdoc, ?_⟩
  · refine Seeds.parseList_intercalate fun token htoken => ?_
    obtain ⟨i, n, hn, rfl⟩ := hids token htoken
    have hform := ofSource_idForm src hn
    exact ⟨hform.ne_empty, fun c hc => hform.plain hc⟩
  · unfold Graph.resolve
    rw [hmatch, hseeds]
    exact if_neg (by rw [hnonempty]; simp)
  · obtain ⟨-, -, -, -, hfull, hcontext⟩ := Graph.document?_eq_some hdoc
    rw [hfull, hcontext, hsel']
    exact slice_eq_ok (Graph.select_reach.mpr hagain) hdoc

/-- A method whose name is the id of the function after it. -/
def lookalikeName : Source where
  path := "lookalike.js"
  dialect := .javascript
  text := "x=\x7b\"function@1:29-1:43\"()\x7b\x7d\x7d;function g()\x7b\x7d"
  tree :=
    .mk ⟨.other, 0, 43, true, false, false, []⟩ [
      .mk ⟨.other, 0, 29, true, false, false, []⟩ [
        .mk ⟨.assignmentExpression, 0, 28, true, false, false, []⟩ [
          .mk ⟨.identifier, 0, 1, true, false, false, [.left]⟩ [],
          .mk ⟨.other, 2, 28, true, false, false, [.right]⟩ [
            .mk ⟨.methodDefinition, 3, 27, true, false, false, []⟩ [
              .mk ⟨.string, 3, 23, true, false, false, [.name]⟩ [],
              .mk ⟨.other, 23, 25, true, false, false, [.parameters]⟩ []]]]],
      .mk ⟨.functionDeclaration, 29, 43, true, false, false, []⟩ [
        .mk ⟨.identifier, 38, 39, true, false, false, [.name]⟩ []]]

/-- The function can be asked for by its name and then by its id, although a method has that id for
a name. -/
theorem slice_seeds_again_lookalikeName :
    ((ofSource lookalikeName).graph.node? 0).map (·.name) = some "function@1:29-1:43" ∧
    ∃ doc, (ofSource lookalikeName).slice ⟨["g"], 0, 0⟩ {} = .ok doc ∧
      doc.seeds = ["function@1:29-1:43"] ∧
      Seeds.parseList (String.intercalate "," doc.seeds) = doc.seeds ∧
      (∃ sel, (ofSource lookalikeName).graph.select ⟨["g"], 0, 0⟩ = .ok sel ∧
        sel.seeds = .ofList [1] ∧
        (ofSource lookalikeName).graph.resolve doc.seeds = .ok sel.seeds) ∧
      (ofSource lookalikeName).slice ⟨doc.seeds, 0, 0⟩ {} = .ok doc ∧
      (ofSource lookalikeName).slice ⟨doc.seeds, doc.fullRadius, doc.contextRadius⟩ {}
        = .ok doc := by
  have hgraph : ((ofSource lookalikeName).graph.node? 0).map (·.name) = some "function@1:29-1:43" ∧
      ((ofSource lookalikeName).graph.node? 1).map (·.id) = some "function@1:29-1:43" ∧
      (ofSource lookalikeName).graph.matchingAny ["g"] = .ofList [1] := by
    -- the method and the function are recorded in source order
    unfold ofSource Graph.build Draft.freeze
    rw [Draft.ordered_of_pairwise (by decide +kernel)]
    decide +kernel
  obtain ⟨hname, hid, hmatch⟩ := hgraph
  have hresolve : (ofSource lookalikeName).graph.resolve ["g"] = .ok (.ofList [1]) := by
    unfold Graph.resolve
    rw [hmatch]
    rfl
  obtain ⟨sel, doc, hsel, hdoc, hseeds, -⟩ := exists_slice lookalikeName hresolve (o := {}) rfl 0 0
  obtain ⟨hparse, ⟨sel', hsel', hagain⟩, hslices⟩ :=
    slice_seeds_again lookalikeName ⟨["g"], 0, 0⟩ {} (slice_eq_ok hsel hdoc)
  obtain rfl := Except.ok.inj (hsel.symm.trans hsel')
  refine ⟨hname, doc, slice_eq_ok hsel hdoc, ?_, hparse, ⟨sel, hsel, hseeds, hagain⟩, hslices⟩
  obtain ⟨ns, hns, hdocSeeds, -⟩ := Graph.document?_eq_some hdoc
  obtain ⟨n, hn, hnid⟩ := Option.map_eq_some_iff.mp hid
  rw [hseeds] at hns
  change [1].mapM (ofSource lookalikeName).graph.node? = some ns at hns
  rw [List.mapM_cons, hn, List.mapM_nil] at hns
  rw [hdocSeeds, ← Option.some.inj hns, ← hnid]
  rfl

end Analysis

end CallVicinity
