import Mathlib.Data.List.Basic
import CallVicinity.Draft.Pass

/-!
# What a call refers to

A call names what it calls in one of three ways: by an identifier, by the property of a member
access that is not computed, or by a string between brackets. `Node.Names` lists the three ways as
rules over the kinds and the roles of nodes, without regard to how the library classifies
constructs. What the library makes of a node is read backwards once (`Node.readsAs_construct`):

> `Site.callKey?_eq_some`: a site refers to a name exactly if it is a call and its callee names it.
-/

namespace CallVicinity

namespace Node

/-! ## The constructs, read backwards -/

/-- What a construct says of the node that it was read from: its kind and the children it has.
Functions, classes and numbers say nothing that a call could refer to. -/
def ReadsAs (n : Node) : Construct → Prop
  | .identifier => n.kind = .identifier
  | .string => n.kind = .string
  | .member object property =>
    n.kind = .memberExpression ∧ n.child? .object = some object ∧
      n.child? .property = some property
  | .subscript object index =>
    n.kind = .subscriptExpression ∧ n.child? .object = some object ∧
      n.child? .index = some index
  | .call callee => n.kind = .callExpression ∧ n.child? .function = some callee
  | _ => True

theorem readsAs_construct (n : Node) : n.ReadsAs n.construct := by
  unfold construct
  cases hk : n.kind with
  | identifier => exact hk
  | string => exact hk
  | memberExpression =>
    dsimp only
    split
    next ho hp => exact ⟨hk, ho, hp⟩
    next => trivial
  | subscriptExpression =>
    dsimp only
    split
    next ho hi => exact ⟨hk, ho, hi⟩
    next => trivial
  | callExpression =>
    dsimp only
    split
    next hf => exact ⟨hk, hf⟩
    next => trivial
  | functionKeyword => dsimp only; split <;> trivial
  | classKeyword => dsimp only; split <;> trivial
  | _ => trivial

theorem readsAs_of_construct {n : Node} {c : Construct} (h : n.construct = c) : n.ReadsAs c := by
  rw [← h]
  exact n.readsAs_construct

/-! ## Names of callees -/

/-- Taking the quotes off undoes putting one of the two kinds of quotes around a text. -/
theorem unquote?_eq_some {text key : List Char} :
    unquote? text = some key ↔
      ∃ quote, (quote = '"' ∨ quote = '\'') ∧ text = quote :: (key ++ [quote]) := by
  constructor
  · intro h
    unfold unquote? at h
    split at h
    next => cases h
    next opening rest =>
      split at h
      next closing hlast =>
        split at h
        next hq =>
          obtain ⟨rfl, hquote⟩ := hq
          refine ⟨opening, hquote, ?_⟩
          rw [← Option.some.inj h, List.dropLast_append_getLast? _ hlast]
        next => cases h
      next => cases h
  · intro h
    obtain ⟨quote, hquote, rfl⟩ := h
    unfold unquote?
    simp [hquote]

/-- The callee of a call names what is called: it is an identifier, a member access with a property,
or a subscript with a string between brackets. -/
inductive Names (source : List Char) (callee : Node) : List Char → Prop where
  | identifier (hkind : callee.kind = .identifier) : Names source callee (callee.text source)
  | property {object property : Node} (hkind : callee.kind = .memberExpression)
      (hobject : callee.child? .object = some object)
      (hproperty : callee.child? .property = some property) :
      Names source callee (property.text source)
  | subscript {object index : Node} {key : List Char} {quote : Char}
      (hkind : callee.kind = .subscriptExpression)
      (hobject : callee.child? .object = some object)
      (hindex : callee.child? .index = some index) (hstring : index.kind = .string)
      (hquote : quote = '"' ∨ quote = '\'')
      (htext : index.text source = quote :: (key ++ [quote])) : Names source callee key

theorem calleeKey?_eq_some {source key : List Char} {callee : Node} :
    callee.calleeKey? source = some key ↔ callee.Names source key := by
  unfold calleeKey?
  constructor
  · intro h
    split at h
    next hc =>
      rw [← Option.some.inj h]
      exact .identifier (readsAs_of_construct hc)
    next object property hc =>
      obtain ⟨hk, ho, hp⟩ := readsAs_of_construct hc
      rw [← Option.some.inj h]
      exact .property hk ho hp
    next object index hc =>
      obtain ⟨hk, ho, hi⟩ := readsAs_of_construct hc
      unfold stringValue? at h
      split at h
      next hs =>
        obtain ⟨quote, hquote, htext⟩ := unquote?_eq_some.mp h
        exact .subscript hk ho hi (readsAs_of_construct hs) hquote htext
      next => cases h
    next => cases h
  · intro h
    cases h with
    | identifier hk =>
      unfold construct
      rw [hk]
    | property hk ho hp =>
      unfold construct
      rw [hk, ho, hp]
    | subscript hk ho hi hs hquote htext =>
      unfold construct
      rw [hk, ho, hi]
      show stringValue? _ source = some key
      unfold stringValue? construct
      rw [hs]
      exact unquote?_eq_some.mpr ⟨_, hquote, htext⟩

end Node

/-- **What a site refers to**: it is a call, and its callee names it. -/
theorem Site.callKey?_eq_some {source : List Char} {s : Site} {name : String} :
    s.callKey? source = some name ↔
      s.node.kind = .callExpression ∧ ∃ callee key, s.node.child? .function = some callee ∧
        callee.Names source key ∧ String.ofList key = name := by
  unfold callKey?
  constructor
  · intro h
    split at h
    next callee hc =>
      obtain ⟨hk, hf⟩ := Node.readsAs_of_construct hc
      obtain ⟨key, hkey, hname⟩ := Option.map_eq_some_iff.mp h
      exact ⟨hk, callee, key, hf, Node.calleeKey?_eq_some.mp hkey, hname⟩
    next => cases h
  · intro h
    obtain ⟨hk, callee, key, hf, hnames, rfl⟩ := h
    unfold Node.construct
    rw [hk, hf]
    exact Option.map_eq_some_iff.mpr ⟨key, Node.calleeKey?_eq_some.mpr hnames, rfl⟩

end CallVicinity
