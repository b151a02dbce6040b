import CallVicinity.Proofs.Document.Growth
import CallVicinity.Proofs.Text.LowerCase

/-!
# Parts of names as tokens

A part of a declared name is looked for in lower case, in the lower-case forms of the names. It is
found there unless it holds a capital sigma that ends a word in the part and not in the name, or the
other way round:

> `Graph.build_resolve_fragment`: a part of a declared name stands for something if its capital
> sigmas keep their forms.

The condition is needed (`Graph.not_resolve_cutSigma`).
-/

namespace CallVicinity.Graph

/-- A part of a name is found in it if its sigmas keep their forms. -/
theorem mem_likeNamed_of_part {g : Graph} {i : Nat} {n : Declaration} (hn : g.node? i = some n)
    {front part back : List Char} (hname : n.name.toList = front ++ part ++ back)
    (hsigmas : Text.KeepsSigmas front part back) : i ∈ g.likeNamed (String.ofList part) := by
  unfold likeNamed
  refine mem_indexesWhere.mpr ⟨n, hn, ?_⟩
  rw [String.toList_ofList, hname]
  exact Text.occursIn_iff.mpr (Text.lower_infix hsigmas)

/-- **A part of a declared name stands for something**, if each capital sigma in it ends a word
there exactly if it does in the name. -/
theorem build_resolve_fragment (source : List Char) (tree : Node) {i : Nat} {n : Declaration}
    (hn : (Graph.build source tree).node? i = some n) {front part back : List Char}
    (hname : n.name.toList = front ++ part ++ back)
    (hsigmas : Text.KeepsSigmas front part back) :
    ∃ found, (Graph.build source tree).resolve [String.ofList part] = .ok found ∧
      ∃ j, j ∈ found :=
  exists_resolve (exists_matching (Or.inr (mem_likeNamed_of_part hn hname hsigmas)))

/-- A function with a capital sigma inside its name. -/
def innerSigma : Source where
  path := "sigma.js"
  dialect := .javascript
  text := "function aΣb() \x7b\x7d"
  tree :=
    .mk ⟨.other, 0, 18, true, false, false, []⟩ [
      .mk ⟨.functionDeclaration, 0, 18, true, false, false, []⟩ [
        .mk ⟨.identifier, 9, 13, true, false, false, [.name]⟩ [],
        .mk ⟨.other, 13, 15, true, false, false, [.parameters]⟩ [],
        .mk ⟨.other, 16, 18, true, false, false, []⟩ []]]

theorem exists_innerSigma :
    ∃ n, (Analysis.ofSource innerSigma).graph.node? 0 = some n ∧ n.name = "aΣb" :=
  Option.map_eq_some_iff.mp (by decide +kernel)

/-- The sigma ends no word in the name, and none in the last two letters of it. -/
theorem build_resolve_fragment_innerSigma :
    ∃ n, (Analysis.ofSource innerSigma).graph.node? 0 = some n ∧
      n.name.toList = ['a'] ++ ['Σ', 'b'] ++ [] ∧ Text.KeepsSigmas ['a'] ['Σ', 'b'] [] ∧
      ∃ found, (Analysis.ofSource innerSigma).graph.resolve ["Σb"] = .ok found ∧
        ∃ j, j ∈ found := by
  obtain ⟨n, hn, hname⟩ := exists_innerSigma
  have hparts : n.name.toList = ['a'] ++ ['Σ', 'b'] ++ [] := by rw [hname]; decide
  have hsigmas : Text.KeepsSigmas ['a'] ['Σ', 'b'] [] := by
    intro p q h
    -- the sigma is the first of the two letters
    match p, h with
    | [], h => rw [← (List.cons.inj h).2]; decide +kernel
    | [c], h => exact absurd (List.cons.inj (List.cons.inj h).2).1 (by decide)
    | c :: d :: p, h => exact absurd (congrArg List.length h) (by simp)
  exact ⟨n, hn, hparts, hsigmas, build_resolve_fragment _ _ hn hparts hsigmas⟩

/-- **A part of a declared name can stand for nothing.** In the first two letters of the name the
sigma ends a word, which it does not in the name. -/
theorem not_resolve_cutSigma :
    ∃ n, (Analysis.ofSource innerSigma).graph.node? 0 = some n ∧
      n.name.toList = [] ++ ['a', 'Σ'] ++ ['b'] ∧
      (Analysis.ofSource innerSigma).graph.resolve ["aΣ"] = .error (.seeds ["aΣ"]) := by
  obtain ⟨n, hn, hname⟩ := exists_innerSigma
  have hnone : (Analysis.ofSource innerSigma).graph.matchingAny ["aΣ"] = ∅ := by decide +kernel
  refine ⟨n, hn, by rw [hname]; decide, ?_⟩
  unfold resolve
  rw [hnone]
  rfl

end CallVicinity.Graph
