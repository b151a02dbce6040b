import CallVicinity.Proofs.Graph.Ids
import CallVicinity.Proofs.Text.Offsets

/-!
# The two forms of ids

An id tells the extent of its declaration, as in `method@3:2-5:3`, or it has a number, as in
`method#1`. Only the characters of the two forms have to be looked at to see that

* an id of the first form can be read back: kind and extent are determined by it
  (`Draft.spanId_inj`), and with them the byte range (`Label.range_of_span`),
* so can an id of the second form: kind and number (`Draft.numberId_inj`),
* no id has both forms (`Draft.spanId_ne_numberId`), and
* ids hold neither commas nor blanks (`Draft.IdForm.plain`), so that they survive being listed.

Every pass gives ids of these forms only (`Draft.runAll_identified`).
-/

namespace CallVicinity

/-! ## Extents -/

/-- The extent of a node tells its byte range, whatever the text is. -/
theorem Label.range_of_span {source : List Char} {l m : Label}
    (h : l.span source = m.span source) : l.start = m.start ∧ l.stop = m.stop := by
  unfold Label.span at h
  injection h with hrow hcolumn hrow' hcolumn'
  have hstart : Text.position source l.start = Text.position source m.start := by
    cases hl : Text.position source l.start
    cases hm : Text.position source m.start
    simp_all
  have hstop : Text.position source l.stop = Text.position source m.stop := by
    cases hl : Text.position source l.stop
    cases hm : Text.position source m.stop
    simp_all
  exact ⟨Text.position_injective source hstart, Text.position_injective source hstop⟩

theorem Label.span_eq_of_range {source : List Char} {l m : Label} (hstart : l.start = m.start)
    (hstop : l.stop = m.stop) : l.span source = m.span source := by
  unfold Label.span
  rw [hstart, hstop]

/-! ## The characters of ids -/

theorem DeclKind.tag_injective : Function.Injective DeclKind.tag := by
  intro k k' h
  cases k <;> cases k' <;> simp [DeclKind.tag] at h ⊢

theorem isDigit_of_mem_repr {n : Nat} {c : Char} (h : c ∈ n.repr.toList) : c.isDigit = true := by
  rw [Nat.toList_repr] at h
  exact Nat.isDigit_of_mem_toDigits (by omega) (by omega) h

/-- A mark that is no digit is not in the digits of a number. -/
theorem not_mem_repr {n : Nat} {mark : Char} (h : mark.isDigit = false) : mark ∉ n.repr.toList := by
  intro hmem
  rw [isDigit_of_mem_repr hmem] at h
  cases h

/-- Neither a comma nor a blank. -/
def Text.Plain (c : Char) : Prop := c ≠ ',' ∧ Text.isBlank c = false

theorem Text.plain_of_isDigit {c : Char} (h : c.isDigit = true) : Text.Plain c := by
  have hrange : 48 ≤ c.toNat ∧ c.toNat ≤ 57 := by
    simpa [Char.isDigit, UInt32.le_iff_toNat_le] using h
  constructor
  · rintro rfl
    exact absurd h (by decide)
  · simp only [Text.isBlank, Bool.or_eq_false_iff, Bool.and_eq_false_iff, decide_eq_false_iff_not,
      beq_eq_false_iff_ne]
    omega

theorem DeclKind.plain_of_mem_tag {kind : DeclKind} {c : Char} (h : c ∈ kind.tag.toList) :
    Text.Plain c := by
  have hall : (kind.tag.toList.all fun c => c != ',' && !Text.isBlank c) = true := by
    cases kind <;> decide
  simpa [Text.Plain] using List.all_eq_true.mp hall c h

namespace Draft

theorem toList_spanId (kind : DeclKind) (s : Span) :
    (spanId kind s).toList = kind.tag.toList ++ '@' ::
      ((s.startLine.repr.toList ++ ':' :: s.startColumn.repr.toList) ++ '-' ::
        (s.endLine.repr.toList ++ ':' :: s.endColumn.repr.toList)) := by
  simp [spanId, String.toList_append]

theorem toList_numberId (kind : DeclKind) (n : Nat) :
    (numberId kind n).toList = kind.tag.toList ++ '#' :: n.repr.toList := by
  simp [numberId, String.toList_append]

/-- Two numbers with a mark between them can be read back. -/
theorem repr_mark_inj {mark : Char} (h : mark.isDigit = false) {a b a' b' : Nat} :
    a.repr.toList ++ mark :: b.repr.toList = a'.repr.toList ++ mark :: b'.repr.toList ↔
      a = a' ∧ b = b' := by
  rw [List.append_cons_inj_of_notMem (not_mem_repr h) (not_mem_repr h)]
  simp only [String.toList_inj, repr_injective.eq_iff, true_and]

/-- **An id by extent can be read back.** -/
theorem spanId_inj {k k' : DeclKind} {s s' : Span} :
    spanId k s = spanId k' s' ↔ k = k' ∧ s = s' := by
  refine ⟨fun h => ?_, fun h => by rw [h.1, h.2]⟩
  have hlist := congrArg String.toList h
  rw [toList_spanId, toList_spanId] at hlist
  have htag : '@' ∉ k.tag.toList := by cases k <;> decide
  have hrest : '@' ∉ (s.startLine.repr.toList ++ ':' :: s.startColumn.repr.toList) ++ '-' ::
      (s.endLine.repr.toList ++ ':' :: s.endColumn.repr.toList) := by
    simp only [List.mem_append, List.mem_cons, not_or]
    have hat : ∀ n : Nat, '@' ∉ n.repr.toList := fun n => not_mem_repr (by decide)
    exact ⟨⟨hat _, by decide, hat _⟩, by decide, hat _, by decide, hat _⟩
  have hdash : ∀ a b : Nat, '-' ∉ a.repr.toList ++ ':' :: b.repr.toList := by
    intro a b
    simp only [List.mem_append, List.mem_cons, not_or]
    exact ⟨not_mem_repr (by decide), by decide, not_mem_repr (by decide)⟩
  obtain ⟨hk, -, hspan⟩ := (List.append_cons_inj_of_notMem htag hrest).mp hlist
  obtain ⟨hfirst, -, hlast⟩ := (List.append_cons_inj_of_notMem (hdash _ _) (hdash _ _)).mp hspan
  obtain ⟨hl, hc⟩ := (repr_mark_inj (by decide)).mp hfirst
  obtain ⟨hl', hc'⟩ := (repr_mark_inj (by decide)).mp hlast
  refine ⟨DeclKind.tag_injective (String.toList_inj.mp hk), ?_⟩
  cases s
  cases s'
  simp_all

/-- An id with a number can be read back, too. -/
theorem numberId_inj {k k' : DeclKind} {m n : Nat} :
    numberId k m = numberId k' n ↔ k = k' ∧ m = n := by
  refine ⟨fun h => ?_, fun h => by rw [h.1, h.2]⟩
  have hlist := congrArg String.toList h
  rw [toList_numberId, toList_numberId] at hlist
  have htag : '#' ∉ k.tag.toList := by cases k <;> decide
  obtain ⟨hk, -, hnumber⟩ :=
    (List.append_cons_inj_of_notMem htag (not_mem_repr (by decide))).mp hlist
  exact ⟨DeclKind.tag_injective (String.toList_inj.mp hk),
    repr_injective (String.toList_inj.mp hnumber)⟩

/-- **No id has both forms**: only one of them has an at sign. -/
theorem spanId_ne_numberId (k k' : DeclKind) (s : Span) (n : Nat) :
    spanId k s ≠ numberId k' n := by
  intro h
  have hmem : '@' ∈ (numberId k' n).toList := by
    rw [← h, toList_spanId]
    simp
  rw [toList_numberId, List.mem_append, List.mem_cons] at hmem
  rcases hmem with htag | hmark | hdigits
  · revert htag
    cases k' <;> decide
  · exact absurd hmark (by decide)
  · exact not_mem_repr (by decide) hdigits

/-- An id of a declaration of a kind with an extent: it tells the extent, or it has a number. -/
inductive IdForm (kind : DeclKind) (span : Span) : String → Prop where
  | extent : IdForm kind span (spanId kind span)
  | number (n : Nat) : IdForm kind span (numberId kind n)

/-- The characters of an id are those of the word for the kind, digits and marks. -/
theorem IdForm.mem_cases {kind : DeclKind} {span : Span} {id : String} (h : IdForm kind span id)
    {c : Char} (hc : c ∈ id.toList) :
    c ∈ kind.tag.toList ∨ c.isDigit = true ∨ c ∈ ['@', ':', '-', '#'] := by
  have hdigits : ∀ {n : Nat}, c ∈ n.repr.toList → c.isDigit = true := isDigit_of_mem_repr
  cases h with
  | extent =>
    rw [toList_spanId] at hc
    simp only [List.mem_append, List.mem_cons] at hc ⊢
    grind
  | number n =>
    rw [toList_numberId] at hc
    simp only [List.mem_append, List.mem_cons] at hc ⊢
    grind

/-- **Ids hold neither commas nor blanks.** -/
theorem IdForm.plain {kind : DeclKind} {span : Span} {id : String} (h : IdForm kind span id)
    {c : Char} (hc : c ∈ id.toList) : Text.Plain c := by
  rcases h.mem_cases hc with htag | hdigit | hmark
  · exact DeclKind.plain_of_mem_tag htag
  · exact Text.plain_of_isDigit hdigit
  · have hall : (['@', ':', '-', '#'].all fun c => c != ',' && !Text.isBlank c) = true := by
      decide
    simpa [Text.Plain] using List.all_eq_true.mp hall c hmark

theorem IdForm.ne_empty {kind : DeclKind} {span : Span} {id : String} (h : IdForm kind span id) :
    id.toList ≠ [] := by
  cases h with
  | extent => rw [toList_spanId]; simp
  | number n => rw [toList_numberId]; simp

/-! ## The ids that passes give -/

/-- When a node gets the id of its extent: it is there, it is not empty, and the id is free. -/
theorem spanId?_eq_some {d : Draft} {source : List Char} {l : Label} {kind : DeclKind}
    {id : String} : d.spanId? source l kind = some id ↔
      l.missing = false ∧ l.start < l.stop ∧ id = spanId kind (l.span source) ∧ id ∉ d.ids := by
  unfold spanId?
  by_cases hplace : (l.missing || decide (l.stop ≤ l.start)) = true
  · rw [if_pos hplace]
    simp only [Bool.or_eq_true, decide_eq_true_eq] at hplace
    refine ⟨fun h => absurd h (by simp), fun h => ?_⟩
    rcases hplace with hmissing | hempty
    · rw [h.1] at hmissing
      cases hmissing
    · have := h.2.1
      omega
  · rw [if_neg hplace]
    simp only [Bool.or_eq_true, decide_eq_true_eq, not_or, Bool.not_eq_true, Nat.not_le] at hplace
    by_cases hused : spanId kind (l.span source) ∈ d.ids
    · simp only [hused, if_true]
      refine ⟨fun h => absurd h (by simp), fun h => ?_⟩
      obtain ⟨-, -, hid, hfree⟩ := h
      rw [hid] at hfree
      exact absurd hused hfree
    · simp only [hused, if_false, Option.some.injEq]
      refine ⟨fun h => ?_, fun h => h.2.2.1.symm⟩
      rw [← h]
      exact ⟨hplace.1, hplace.2, rfl, hused⟩

/-- Every record has an id of one of the two forms, made from its own kind and extent. -/
def Identified (d : Draft) (source : List Char) : Prop :=
  ∀ r ∈ d.records.toList, IdForm r.heading.kind (r.site.node.label.span source) r.id

section Identified

variable {d : Draft} {source : List Char} {sites : List Site}

theorem record_identified (hd : d.Identified source) (s : Site) (h : Heading) :
    (d.record source s h).Identified source := by
  have hpush : ∀ id, IdForm h.kind (s.node.label.span source) id →
      ∀ r ∈ (d.records.push ⟨s, id, h, none, ∅, ∅⟩).toList,
        IdForm r.heading.kind (r.site.node.label.span source) r.id := by
    intro id hid r hr
    rw [Array.toList_push, List.mem_append, List.mem_singleton] at hr
    rcases hr with hold | rfl
    · exact hd r hold
    · exact hid
  unfold record
  split
  next id hid =>
    refine hpush id ?_
    rw [(spanId?_eq_some.mp hid).2.2.1]
    exact .extent
  next => exact hpush _ (.number _)

theorem linkOwners_identified (hd : d.Identified source) : d.linkOwners.Identified source := by
  intro r hr
  rw [linkOwners, Array.toList_map] at hr
  obtain ⟨q, hq, rfl⟩ := List.mem_map.mp hr
  exact hd q hq

theorem linkCalls_identified (hd : d.Identified source) :
    (d.linkCalls source sites).1.Identified source := by
  intro r hr
  obtain ⟨q, hq, hsite, hid, hheading⟩ := exists_mem_of_bare (d.linkCalls_bare source sites) hr
  rw [hsite, hid, hheading]
  exact hd q hq

theorem run_identified (hd : d.Identified source) :
    ∀ p : Pass, (d.run source sites p).Identified source
  | .classes =>
    recordAll_keeps (P := fun d' => d'.Identified source)
      (fun _ s _ h hd' => record_identified hd' s h) hd
  | .functions =>
    recordAll_keeps (P := fun d' => d'.Identified source)
      (fun _ s _ h hd' => record_identified hd' s h) hd
  | .ownership => linkOwners_identified hd
  | .calls => linkCalls_identified hd

/-- **Every run of passes gives ids of the two forms only.** -/
theorem runAll_identified : ∀ (passes : List Pass) {d : Draft}, d.Identified source →
    (d.runAll source sites passes).Identified source := by
  intro passes
  induction passes with
  | nil => intro d hd; exact hd
  | cons p passes ih =>
    intro d hd
    exact ih (run_identified hd p)

theorem empty_identified (source : List Char) : empty.Identified source :=
  fun _ hr => absurd hr List.not_mem_nil

/-- The ids of a frozen graph have the forms that the draft gave them. -/
theorem Identified.freeze (hd : d.Identified source) {i : Nat} {n : Declaration}
    (hn : (d.freeze source).node? i = some n) : IdForm n.kind n.span n.id := by
  obtain ⟨r, slot, hi, rfl⟩ := freeze_node?_eq_some.mp hn
  have hmem := Array.mem_of_getElem? (record_of_ordered hi)
  exact hd r (Array.mem_toList_iff.mpr hmem)

end Identified

end Draft

end CallVicinity
