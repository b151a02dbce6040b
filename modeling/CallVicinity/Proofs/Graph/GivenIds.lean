import CallVicinity.Proofs.Graph.PassOrder
import CallVicinity.Proofs.Text.Positions

/-!
# Which id a declaration gets

The id of a declaration depends on what was recorded before it. It tells the extent if the
declaration has a place of its own in the text, so that the id stays the same when other
declarations come and go. The others are numbered:

> `Graph.build_ids_given`: a declaration has the id of its extent exactly if its node is there, is
> not empty and no earlier declaration of its kind has its range. The other declarations have the
> numbers from one on, in the order of recording.

The counter of a draft skips no number although it is shared by all kinds, and although a number is
searched for that is free: what was recorded so far has the numbers up to the counter and no other
(`Draft.Assigned`). `Draft.record_assigned` proves it of one record and `Draft.runAll_assigned` of
every run of passes.
-/

namespace CallVicinity

namespace Draft

/-! ## Places -/

/-- An entry that is recorded after the given ones has a place of its own in the text: the parser
did not make it up, it is not empty, and no earlier entry of its kind that is in the text has its
range. -/
def HasPlace (earlier : List (Site × Heading)) (e : Site × Heading) : Prop :=
  e.1.node.label.missing = false ∧ e.1.node.label.start < e.1.node.label.stop ∧
    ∀ f ∈ earlier, f.1.node.label.missing = false → f.2.kind = e.2.kind → RangesDiffer f e

instance (earlier : List (Site × Heading)) (e : Site × Heading) : Decidable (HasPlace earlier e) :=
  inferInstanceAs (Decidable (_ ∧ _ ∧ _))

/-- How many of the entries have no place of their own. -/
def placeless (es : List (Site × Heading)) : Nat :=
  es.zipIdx.countP fun e => ¬ HasPlace (es.take e.2) e.1

/-- Later entries do not take away the place of an earlier one. -/
theorem placeless_append (es fs : List (Site × Heading)) :
    placeless (es ++ fs) = placeless es +
      (fs.zipIdx es.length).countP fun e => ¬ HasPlace ((es ++ fs).take e.2) e.1 := by
  unfold placeless
  rw [List.zipIdx_append, List.countP_append, Nat.zero_add]
  congr 1
  refine List.countP_congr ?_
  intro e he
  rw [List.take_append_of_le_length (Nat.le_of_lt (List.snd_lt_of_mem_zipIdx he))]

theorem placeless_concat (es : List (Site × Heading)) (e : Site × Heading) :
    placeless (es ++ [e]) = placeless es + if HasPlace es e then 0 else 1 := by
  rw [placeless_append, List.zipIdx_singleton, List.countP_singleton, List.take_left]
  by_cases h : HasPlace es e <;> simp [h]

/-- Up to and with an entry without a place there is one entry without a place more. -/
theorem placeless_take_lt {es : List (Site × Heading)} {k : Nat} {e : Site × Heading}
    (he : es[k]? = some e) (hplace : ¬ HasPlace (es.take k) e) :
    placeless (es.take k) < placeless es := by
  calc placeless (es.take k) < placeless (es.take k ++ [e]) := by
        rw [placeless_concat, if_neg hplace]
        omega
    _ = placeless (es.take (k + 1)) := by rw [List.take_add_one, he]; rfl
    _ ≤ placeless (es.take (k + 1) ++ es.drop (k + 1)) := by
        rw [placeless_append]
        exact Nat.le_add_right _ _
    _ = placeless es := by rw [List.take_append_drop]

/-! ## The ids of records -/

/-- The id of an entry that is recorded after the given ones. -/
def givenId (source : List Char) (earlier : List (Site × Heading)) (e : Site × Heading) : String :=
  if HasPlace earlier e then spanId e.2.kind (e.1.node.label.span source)
  else numberId e.2.kind (placeless earlier + 1)

theorem givenId_eq_spanId {source : List Char} {earlier : List (Site × Heading)}
    {e : Site × Heading} : givenId source earlier e = spanId e.2.kind (e.1.node.label.span source) ↔
      HasPlace earlier e := by
  unfold givenId
  constructor
  · intro h
    by_contra hplace
    rw [if_neg hplace] at h
    exact spanId_ne_numberId _ _ _ _ h.symm
  · intro hplace
    rw [if_pos hplace]

/-- Every record has the id that what was recorded before it gives, and the counter has counted the
entries without a place. -/
structure Assigned (d : Draft) (source : List Char) : Prop where
  numbered : d.numbered = placeless d.entries
  id : ∀ slot r, d.records[slot]? = some r →
    r.id = givenId source (d.entries.take slot) (r.site, r.heading)

section Assigned

variable {d : Draft} {source : List Char} {sites : List Site}

/-- An id in use was given to an entry. -/
theorem Assigned.mem_ids (hd : d.Assigned source) {id : String} :
    id ∈ d.ids ↔
      ∃ slot e, d.entries[slot]? = some e ∧ id = givenId source (d.entries.take slot) e := by
  unfold ids
  rw [List.mem_map]
  constructor
  · rintro ⟨r, hr, rfl⟩
    obtain ⟨slot, hslot⟩ := List.mem_iff_getElem?.mp hr
    rw [Array.getElem?_toList] at hslot
    refine ⟨slot, (r.site, r.heading), ?_, hd.id slot r hslot⟩
    rw [getElem?_entries, hslot]
    rfl
  · rintro ⟨slot, e, he, rfl⟩
    rw [getElem?_entries] at he
    obtain ⟨r, hr, rfl⟩ := Option.map_eq_some_iff.mp he
    exact ⟨r, Array.mem_toList_iff.mpr (Array.mem_of_getElem? hr), hd.id slot r hr⟩

/-- The extent of a node in the text is in use exactly if an entry of its kind in the text has its
range: the first such entry got the id. -/
theorem Assigned.spanId_mem_ids (hd : d.Assigned source) {e : Site × Heading}
    (he : e.1.node.label.start < e.1.node.label.stop) :
    spanId e.2.kind (e.1.node.label.span source) ∈ d.ids ↔
      ∃ f ∈ d.entries, f.1.node.label.missing = false ∧ f.2.kind = e.2.kind ∧
        ¬ RangesDiffer f e := by
  rw [hd.mem_ids]
  constructor
  · rintro ⟨slot, f, hf, hid⟩
    unfold givenId at hid
    split at hid
    next hplace =>
      obtain ⟨hkind, hspan⟩ := spanId_inj.mp hid
      exact ⟨f, List.mem_of_getElem? hf, hplace.1, hkind.symm,
        not_not_intro (Label.range_of_span hspan.symm)⟩
    next => exact absurd hid (spanId_ne_numberId _ _ _ _)
  · intro hused
    -- of the entries in question the first one has a place
    obtain ⟨f, hfind⟩ : ∃ f, d.entries.find? (fun f => f.1.node.label.missing = false ∧
        f.2.kind = e.2.kind ∧ ¬ RangesDiffer f e) = some f := by
      rw [← Option.isSome_iff_exists, List.find?_isSome]
      simpa using hused
    obtain ⟨hf, before, after, hsplit, hfirst⟩ := List.find?_eq_some_iff_append.mp hfind
    simp only [Bool.not_eq_true', decide_eq_true_eq, decide_eq_false_iff_not] at hf hfirst
    obtain ⟨hmissing, hkind, hrange⟩ := hf
    obtain ⟨hstart, hstop⟩ := not_not.mp hrange
    have hplace : HasPlace before f := by
      refine ⟨hmissing, by omega, ?_⟩
      intro g hg hgmissing hgkind hgrange
      refine hfirst g hg ⟨hgmissing, hgkind.trans hkind, not_not_intro ?_⟩
      exact ⟨hgrange.1.trans hstart, hgrange.2.trans hstop⟩
    refine ⟨before.length, f, by rw [hsplit]; simp, ?_⟩
    rw [hsplit, List.take_left, givenId, if_pos hplace, hkind,
      Label.span_eq_of_range hstart hstop]

/-- **An id by extent is given exactly to what has a place of its own.** -/
theorem Assigned.spanId?_eq (hd : d.Assigned source) (s : Site) (h : Heading) :
    d.spanId? source s.node.label h.kind = if HasPlace d.entries (s, h) then
      some (spanId h.kind (s.node.label.span source)) else none := by
  refine Option.ext fun id => ?_
  rw [spanId?_eq_some, Option.ite_none_right_eq_some, Option.some.injEq]
  constructor
  · rintro ⟨hmissing, hlt, rfl, hfree⟩
    refine ⟨⟨hmissing, hlt, ?_⟩, rfl⟩
    intro f hf hfmissing hkind
    by_contra hrange
    exact hfree ((hd.spanId_mem_ids (e := (s, h)) hlt).mpr ⟨f, hf, hfmissing, hkind, hrange⟩)
  · rintro ⟨⟨hmissing, hlt, hnew⟩, rfl⟩
    refine ⟨hmissing, hlt, rfl, ?_⟩
    intro hused
    obtain ⟨f, hf, hfmissing, hkind, hrange⟩ := (hd.spanId_mem_ids (e := (s, h)) hlt).mp hused
    exact hrange (hnew f hf hfmissing hkind)

/-- **The next number is free**: the numbers in use are those up to the counter. -/
theorem Assigned.freeNumber_eq (hd : d.Assigned source) (kind : DeclKind) :
    freeNumber kind d.ids (d.numbered + 1) = d.numbered + 1 := by
  rw [freeNumber, dif_neg]
  intro hmem
  obtain ⟨slot, e, he, hid⟩ := hd.mem_ids.mp hmem
  unfold givenId at hid
  split at hid
  next => exact spanId_ne_numberId _ _ _ _ hid.symm
  next hplace =>
    have hlt := placeless_take_lt he hplace
    have heq := (numberId_inj.mp hid).2
    rw [hd.numbered] at heq
    omega

theorem record_assigned (hd : d.Assigned source) (s : Site) (h : Heading) :
    (d.record source s h).Assigned source := by
  have hrec : (d.record source s h).records
      = d.records.push ⟨s, givenId source d.entries (s, h), h, none, ∅, ∅⟩ ∧
      (d.record source s h).numbered = placeless (d.entries ++ [(s, h)]) := by
    rw [record, hd.spanId?_eq, givenId, placeless_concat, ← hd.numbered]
    by_cases hplace : HasPlace d.entries (s, h)
    · simp only [if_pos hplace, Nat.add_zero, and_self]
    · simp only [if_neg hplace, hd.freeNumber_eq, and_self]
  refine ⟨by rw [record_entries]; exact hrec.2, ?_⟩
  intro slot r hr
  rw [hrec.1, Array.getElem?_push] at hr
  rw [record_entries]
  split at hr
  next hslot =>
    obtain rfl := Option.some.inj hr
    rw [hslot, ← length_entries, List.take_left]
  next =>
    have hlt : slot < d.entries.length := by
      rw [length_entries]
      exact (Array.getElem?_eq_some_iff.mp hr).1
    rw [List.take_append_of_le_length (Nat.le_of_lt hlt)]
    exact hd.id slot r hr

theorem linkOwners_assigned (hd : d.Assigned source) : d.linkOwners.Assigned source := by
  refine ⟨by rw [linkOwners_entries]; exact hd.numbered, ?_⟩
  intro slot r hr
  rw [linkOwners, Array.getElem?_map] at hr
  obtain ⟨q, hq, rfl⟩ := Option.map_eq_some_iff.mp hr
  rw [linkOwners_entries]
  exact hd.id slot q hq

theorem linkCalls_assigned (hd : d.Assigned source) :
    (d.linkCalls source sites).1.Assigned source := by
  have hbare := d.linkCalls_bare source sites
  have hnumbered : (d.linkCalls source sites).1.numbered = d.numbered :=
    congrArg (·.numbered) hbare
  refine ⟨by rw [linkCalls_entries, hnumbered]; exact hd.numbered, ?_⟩
  intro slot r hr
  obtain ⟨q, hq, hsite, hid, hheading, -⟩ := exists_record_of_bare hbare hr
  rw [linkCalls_entries, hsite, hid, hheading]
  exact hd.id slot q hq

theorem run_assigned (hd : d.Assigned source) :
    ∀ p : Pass, (d.run source sites p).Assigned source
  | .classes =>
    recordAll_keeps (P := fun d' => d'.Assigned source)
      (fun _ s _ h hd' => record_assigned hd' s h) hd
  | .functions =>
    recordAll_keeps (P := fun d' => d'.Assigned source)
      (fun _ s _ h hd' => record_assigned hd' s h) hd
  | .ownership => linkOwners_assigned hd
  | .calls => linkCalls_assigned hd

/-- **Every run of passes gives the ids by what was recorded before.** -/
theorem runAll_assigned : ∀ (passes : List Pass) {d : Draft}, d.Assigned source →
    (d.runAll source sites passes).Assigned source := by
  intro passes
  induction passes with
  | nil => intro d hd; exact hd
  | cons p passes ih =>
    intro d hd
    exact ih (run_assigned hd p)

theorem empty_assigned (source : List Char) : empty.Assigned source :=
  ⟨rfl, fun _ _ hr => absurd hr (by simp [empty])⟩

/-- The declarations of a frozen graph are entries, with the ids that were given to these. -/
theorem Assigned.freeze (hd : d.Assigned source) {i : Nat} {n : Declaration}
    (hn : (d.freeze source).node? i = some n) : ∃ slot s h, d.siteAt? i = some s ∧
      d.entries[slot]? = some (s, h) ∧ n.kind = h.kind ∧ n.span = s.node.label.span source ∧
      n.source = String.ofList (s.node.text source) ∧
      n.id = givenId source (d.entries.take slot) (s, h) := by
  obtain ⟨r, slot, hi, rfl⟩ := freeze_node?_eq_some.mp hn
  exact ⟨slot, r.site, r.heading, siteAt?_of_ordered hi, entry_of_ordered hi, rfl, rfl, rfl,
    hd.id slot r (record_of_ordered hi)⟩

end Assigned

/-- The usual run gives the ids by what was recorded before. -/
theorem built_assigned (source : List Char) (tree : Node) : (built source tree).Assigned source :=
  runAll_assigned Pass.usual (empty_assigned source)

/-- A class that the parser made up is recorded before the functions and has the first number; of
two functions with one range the second one has the next. -/
example : (built "function f()\x7b\x7d".toList (.mk ⟨.other, 0, 14, true, false, false, []⟩ [
      .mk ⟨.functionDeclaration, 0, 14, true, false, false, []⟩ [
        .mk ⟨.identifier, 9, 10, true, false, false, [.name]⟩ []],
      .mk ⟨.functionDeclaration, 0, 14, true, false, false, []⟩ [
        .mk ⟨.identifier, 9, 10, true, false, false, [.name]⟩ []],
      .mk ⟨.classDeclaration, 14, 14, true, true, false, []⟩ [
        .mk ⟨.identifier, 14, 14, true, true, false, [.name]⟩ []]])).ids
    = ["class#1", "function@1:0-1:14", "function#2"] := by
  decide +kernel

end Draft

/-! ## Extents in the text -/

/-- Where an extent begins. -/
def Span.first (s : Span) : Text.Position := ⟨s.startLine - 1, s.startColumn⟩

/-- Where an extent ends. -/
def Span.last (s : Span) : Text.Position := ⟨s.endLine - 1, s.endColumn⟩

theorem Label.first_span (l : Label) (source : List Char) :
    (l.span source).first = Text.position source l.start := rfl

theorem Label.last_span (l : Label) (source : List Char) :
    (l.span source).last = Text.position source l.stop := rfl

/-- **The text of a node is what lies between the two positions of its extent.** -/
theorem Node.cut_span {n : Node} {source : List Char} (hle : n.label.start ≤ n.label.stop)
    (hstart : Text.IsBoundary source n.label.start) (hstop : Text.IsBoundary source n.label.stop) :
    Text.cut source (Text.offset source (n.label.span source).first)
      (Text.offset source (n.label.span source).last) = some (n.text source) := by
  rw [Label.first_span, Label.last_span, Text.offset_position hstart.le_byteSize,
    Text.offset_position hstop.le_byteSize, Node.text]
  obtain ⟨part, hpart⟩ := Text.exists_cut hstart hstop hle
  rw [hpart]
  rfl

/-! ## The graph of a tree -/

/-- The declarations of a tree in the order of recording: the classes in pre-order, then the
functions in pre-order. -/
def Node.recordingOrder (source : List Char) (tree : Node) : List (Site × Heading) :=
  Draft.headed (·.classHeading? source) tree.sites
    ++ Draft.headed (·.functionHeading? source) tree.sites

/-- **Which id a declaration of the graph of a tree has.** The declarations are those of the order
of recording. One of them has the id of its extent exactly if it has a place of its own among those
before it; the others have the numbers from one on. The extent holds the rows and byte columns of
the range, an id by extent tells the kind and the range, and what lies between the two positions of
the extent is the source of the declaration. -/
theorem Graph.build_ids_given (source : List Char) (tree : Node) :
    (∀ i n, (Graph.build source tree).node? i = some n → ∃ k s h,
      (Draft.built source tree).siteAt? i = some s ∧
      (tree.recordingOrder source)[k]? = some (s, h) ∧
      n.kind = h.kind ∧ n.span = s.node.label.span source ∧
      (n.id = Draft.spanId n.kind n.span ↔
        Draft.HasPlace ((tree.recordingOrder source).take k) (s, h)) ∧
      (¬ Draft.HasPlace ((tree.recordingOrder source).take k) (s, h) →
        n.id = Draft.numberId n.kind
          (Draft.placeless ((tree.recordingOrder source).take k) + 1)) ∧
      (s.node.label.start ≤ Text.byteSize source →
        n.span.first = Text.Position.ofBytes ((Text.bytes source).take s.node.label.start)) ∧
      (s.node.label.stop ≤ Text.byteSize source →
        n.span.last = Text.Position.ofBytes ((Text.bytes source).take s.node.label.stop)) ∧
      (s.node.label.start ≤ s.node.label.stop → Text.IsBoundary source s.node.label.start →
        Text.IsBoundary source s.node.label.stop →
        Text.cut source (Text.offset source n.span.first) (Text.offset source n.span.last)
          = some n.source.toList)) ∧
    (∀ e ∈ tree.recordingOrder source, ∃ i n, (Graph.build source tree).node? i = some n ∧
      (Draft.built source tree).siteAt? i = some e.1) ∧
    ∀ (k k' : DeclKind) (l l' : Label),
      Draft.spanId k (l.span source) = Draft.spanId k' (l'.span source) →
        k.tag = k'.tag ∧ l.start = l'.start ∧ l.stop = l'.stop := by
  have horder : (Draft.built source tree).entries = tree.recordingOrder source :=
    Draft.built_entries source tree
  refine ⟨?_, ?_, ?_⟩
  · intro i n hn
    obtain ⟨k, s, h, hs, hk, hkind, hspan, hsource, hid⟩ :=
      (Draft.built_assigned source tree).freeze hn
    rw [horder] at hk hid
    rw [hkind, hspan, hsource, hid, String.toList_ofList]
    refine ⟨k, s, h, hs, hk, rfl, rfl, Draft.givenId_eq_spanId, fun hplace => if_neg hplace, ?_⟩
    exact ⟨Text.position_eq_ofBytes, Text.position_eq_ofBytes, Node.cut_span⟩
  · intro e he
    rw [← horder] at he
    obtain ⟨hs, hh⟩ := Draft.mem_built_entries.mp he
    obtain ⟨i, r, slot, hi, hsite, -⟩ := Draft.exists_ordered hs hh
    refine ⟨i, _, Draft.freeze_node?_eq_some.mpr ⟨r, slot, hi, rfl⟩, ?_⟩
    rw [Draft.siteAt?_of_ordered hi, hsite]
  · intro k k' l l' h
    obtain ⟨rfl, hspan⟩ := Draft.spanId_inj.mp h
    exact ⟨rfl, Label.range_of_span hspan⟩

end CallVicinity
