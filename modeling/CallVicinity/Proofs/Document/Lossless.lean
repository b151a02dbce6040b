import CallVicinity.Document.Basic
import CallVicinity.Proofs.Json.Layout

/-!
# JSON loses nothing of a document

A document is written in two steps. As a JSON value it is an object in which a fact that is not
shown has no field. The keys are all different, so looking a key up gives the fact with that key, or
nothing where it is not shown (`Outline.lookup_fields`), and an outline can be told from its object
(`Outline.toJson_inj`, by recursion over the outlines inside). The value in turn can be read off its
text (`Json.text_injective`), whatever the strings in it are.

> `Document.render_json_inj`: documents with the same JSON text are the same document.
-/

namespace CallVicinity

/-! ## Fields that may be missing -/

namespace Json

theorem lookup_optional {α : Type} (key k : String) (write : α → Json) (o : Option α) :
    (optional key write o).lookup k = if k == key then o.map write else none := by
  cases o with
  | none => simp [optional]
  | some a =>
    rw [optional, List.lookup_cons]
    cases k == key <;> rfl

theorem ofNat_injective : Function.Injective ofNat := by
  intro m n h
  exact Int.ofNat.inj (Json.int.inj h)

theorem ofStrings_injective : Function.Injective ofStrings := by
  intro ss ts h
  exact List.map_injective_iff.mpr (fun _ _ => Json.str.inj) (Json.arr.inj h)

end Json

theorem Detail.toName_injective : Function.Injective Detail.toName := by
  intro d e h
  cases d <;> cases e <;> simp [Detail.toName] at h ⊢

/-! ## Outlines -/

attribute [ext] Facts

namespace Outline

/-- The fields of an outline. -/
def fields (f : Facts) (children : Option (List Outline)) (childCount : Option Nat) :
    List (String × Json) :=
  f.fields ++ childrenField children ++ Json.optional "childCount" Json.ofNat childCount

/-- The outlines inside another one as JSON. -/
def childrenToJson (os : List Outline) : Json := .arr (listToJson os)

theorem childrenField_eq (children : Option (List Outline)) :
    childrenField children = Json.optional "children" childrenToJson children := by
  cases children <;> rfl

/-- Under every key stands the fact with that key. -/
theorem lookup_fields (f : Facts) (children : Option (List Outline)) (childCount : Option Nat) :
    let look := fun key => (fields f children childCount).lookup key
    look "id" = f.id.map .str ∧ look "name" = f.name.map .str ∧
    look "kind" = f.kind.map (fun k => .str k.tag) ∧ look "detail" = some (.str f.detail.toName) ∧
    look "params" = f.params.map .str ∧ look "startLine" = f.startLine.map Json.ofNat ∧
    look "endLine" = f.endLine.map Json.ofNat ∧ look "source" = f.source.map .str ∧
    look "calls" = f.calls.map Json.ofStrings ∧ look "calledBy" = f.calledBy.map Json.ofStrings ∧
    look "children" = children.map childrenToJson ∧
    look "childCount" = childCount.map Json.ofNat := by
  simp [fields, childrenField_eq, Facts.fields, List.lookup_append, Json.lookup_optional,
    List.lookup_cons]

/-- The facts and the count can be told from the fields, and the values of the outlines inside. -/
theorem fields_inj {f f' : Facts} {cs cs' : Option (List Outline)} {n n' : Option Nat}
    (h : fields f cs n = fields f' cs' n') :
    f = f' ∧ cs.map childrenToJson = cs'.map childrenToJson ∧ n = n' := by
  have hstr : Function.Injective (Option.map Json.str) :=
    Option.map_injective fun _ _ => Json.str.inj
  have hnat := Option.map_injective Json.ofNat_injective
  have hlist := Option.map_injective Json.ofStrings_injective
  have hkind : Function.Injective (Option.map fun k : DeclKind => Json.str k.tag) :=
    Option.map_injective fun _ _ h => DeclKind.tag_injective (Json.str.inj h)
  obtain ⟨id, name, kind, detail, params, start, stop, source, calls, calledBy, children, count⟩ :=
    lookup_fields f cs n
  obtain ⟨id', name', kind', detail', params', start', stop', source', calls', calledBy', children',
    count'⟩ := lookup_fields f' cs' n'
  simp only [h] at id name kind detail params start stop source calls calledBy children count
  have hdetail : f.detail = f'.detail :=
    Detail.toName_injective (Json.str.inj (Option.some.inj (detail.symm.trans detail')))
  refine ⟨?_, children.symm.trans children', hnat (count.symm.trans count')⟩
  exact Facts.ext (hstr (id.symm.trans id')) (hstr (name.symm.trans name'))
    (hkind (kind.symm.trans kind')) hdetail (hstr (params.symm.trans params'))
    (hnat (start.symm.trans start')) (hnat (stop.symm.trans stop'))
    (hstr (source.symm.trans source')) (hlist (calls.symm.trans calls'))
    (hlist (calledBy.symm.trans calledBy'))

mutual

/-- **An outline can be told from its JSON value.** -/
theorem toJson_inj : ∀ {o o' : Outline}, o.toJson = o'.toJson → o = o'
  | .mk f none n, .mk f' cs' n', h => by
    obtain ⟨rfl, hcs, rfl⟩ := fields_inj (Json.obj.inj h)
    rw [Option.map_eq_none_iff.mp hcs.symm]
  | .mk f (some os) n, .mk f' cs' n', h => by
    obtain ⟨rfl, hcs, rfl⟩ := fields_inj (Json.obj.inj h)
    obtain ⟨os', rfl, hos⟩ := Option.map_eq_some_iff.mp hcs.symm
    rw [listToJson_inj (Json.arr.inj hos.symm)]

theorem listToJson_inj : ∀ {os os' : List Outline}, listToJson os = listToJson os' → os = os'
  | [], [], _ => rfl
  | o :: os, o' :: os', h => by
    obtain ⟨ho, hos⟩ := List.cons.inj h
    rw [toJson_inj ho, listToJson_inj hos]

end

end Outline

/-! ## Documents -/

theorem Document.Stats.toJson_injective : Function.Injective Document.Stats.toJson := by
  intro s t h
  cases s
  cases t
  simpa [Document.Stats.toJson, Json.ofNat_injective.eq_iff] using h

/-- A document can be told from its JSON value. -/
theorem Document.toJson_injective : Function.Injective Document.toJson := by
  intro d e h
  cases d
  cases e
  simp only [Document.toJson, Json.obj.injEq, List.cons.injEq, Prod.mk.injEq, Json.str.injEq,
    Json.arr.injEq, true_and, and_true] at h
  obtain ⟨rfl, rfl, rfl, hseeds, hfull, hcontext, hstats, hnodes⟩ := h
  obtain rfl := Json.ofStrings_injective hseeds
  obtain rfl := Json.ofNat_injective hfull
  obtain rfl := Json.ofNat_injective hcontext
  obtain rfl := Document.Stats.toJson_injective hstats
  obtain rfl := Outline.listToJson_inj hnodes
  rfl

/-- **JSON loses nothing of a document.** On one line as over several, two documents have the same
JSON text only if they are the same. -/
theorem Document.render_json_inj (pretty : Bool) (d e : Document) :
    d.render (.json pretty) = e.render (.json pretty) ↔ d = e := by
  refine ⟨fun h => ?_, fun h => by rw [h]⟩
  have htext : d.toJson.text pretty = e.toJson.text pretty := (String.append_left_inj "\n").mp h
  exact Document.toJson_injective (Json.text_injective pretty htext)

end CallVicinity
