import CallVicinity.Proofs.Text.Words
import CallVicinity.Declaration.Naming

/-!
# The parameters of a function as one line

The parameters of a function are recorded as one line, whatever their text is: words with single
spaces between them. The line has all of the text that is not blank, but for one pair of
parentheses around it (`Naming.Bare`) and the commas at its end.

The commas come off when the blanks are single spaces already, and they may leave a space behind
that comes off after them. That is as if they came off the text itself (`Naming.parameterLine_eq`),
so that all is said by what is left of the text:

> `Naming.parameterLine_laws`: the line is spaced, it has the words of the text between the
> parentheses without the commas at the very end, and it is empty if there are no parameters.
-/

namespace CallVicinity.Naming

/-- The second text is the first without the pair of parentheses around it, if there is one. -/
inductive Bare : List Char → List Char → Prop
  | enclosed (inner : List Char) : Bare ('(' :: (inner ++ [')'])) inner
  | asIs {raw : List Char} (h : ∀ inner, raw ≠ '(' :: (inner ++ [')'])) : Bare raw raw

theorem bare_stripLast (rest : List Char) :
    Bare ('(' :: rest) ((Text.stripLast? ')' rest).getD ('(' :: rest)) := by
  unfold Text.stripLast?
  split
  next hlast =>
    have hbare := Bare.enclosed rest.dropLast
    rw [List.dropLast_append_getLast? _ hlast] at hbare
    exact hbare
  next hlast =>
    refine Bare.asIs fun inner heq => hlast ?_
    rw [(List.cons.inj heq).2, List.getLast?_concat]

/-- A text loses both of its parentheses or none. -/
theorem bare_strip (raw : List Char) :
    Bare raw (((Text.stripStart? ['('] raw).bind (Text.stripLast? ')')).getD raw) := by
  cases raw with
  | nil => exact Bare.asIs fun inner heq => by cases heq
  | cons c rest =>
    by_cases hc : c = '('
    · subst hc
      exact bare_stripLast rest
    · have hstart : Text.stripStart? ['('] (c :: rest) = none :=
        if_neg (by simp [List.isPrefixOf, Ne.symm hc])
      rw [hstart]
      exact Bare.asIs fun inner heq => hc (List.cons.inj heq).1

theorem parameterLine_none {function : Node} (source : List Char)
    (h : (function.child? .parameters).or (function.child? .parameter) = none) :
    parameterLine source function = [] := by
  rw [parameterLine, h]

/-- **The line has the words of the text without the commas at its end.** -/
theorem parameterLine_eq {function parameters : Node} (source : List Char)
    (h : (function.child? .parameters).or (function.child? .parameter) = some parameters) :
    ∃ inner, Bare (parameters.text source) inner ∧ parameterLine source function
      = Text.spaced (Text.dropEndWhile (· == ',') (Text.trimEnd inner)) := by
  refine ⟨_, bare_strip (parameters.text source), ?_⟩
  rw [parameterLine, h]
  dsimp only
  generalize ((Text.stripStart? ['('] (parameters.text source)).bind
    (Text.stripLast? ')')).getD (parameters.text source) = inner
  have hcomma : ∀ c : Char, (c == ',') = true → Text.isBlank c = false := by
    intro c hc
    rw [beq_iff_eq.mp hc]
    decide
  calc Text.trim (Text.dropEndWhile (· == ',') (Text.spaced inner))
      = Text.trim (Text.dropEndWhile (· == ',') (Text.spaced (Text.trimEnd inner))) := by
        rw [(Text.offEnd_trimEnd inner).spaced_eq]
    _ = Text.spaced (Text.dropEndWhile (· == ',') (Text.trimEnd inner)) :=
        Text.trim_dropEndWhile_spaced hcomma fun c hc => Text.isBlank_of_getLast?_trimEnd hc

theorem isSpaced_parameterLine (source : List Char) (function : Node) :
    Text.IsSpaced (parameterLine source function) := by
  cases h : (function.child? .parameters).or (function.child? .parameter) with
  | none =>
    rw [parameterLine_none source h]
    exact Text.isSpaced_spaced []
  | some parameters =>
    obtain ⟨inner, -, heq⟩ := parameterLine_eq source h
    rw [heq]
    exact Text.isSpaced_spaced _

/-- **The parameters of a function as one line.** The line consists of words with single spaces
between them and nothing around them. It comes from the text of the parameters without the pair of
parentheses around it, if there is one: of the characters that are not blank, only the commas at the
very end are missing, and the words are those of what is in front of these commas. The line is
empty if the function has neither parameters nor a single parameter. -/
theorem parameterLine_laws (source : List Char) (function : Node) :
    Text.IsSpaced (parameterLine source function)
    ∧ (∀ parameters ∈ (function.child? .parameters).or (function.child? .parameter),
        ∃ inner kept commas, Bare (parameters.text source) inner
          ∧ Text.trimEnd inner = kept ++ List.replicate commas ','
          ∧ kept.getLast? ≠ some ','
          ∧ Text.visible inner
              = Text.visible (parameterLine source function) ++ List.replicate commas ','
          ∧ Text.words (parameterLine source function) = Text.words kept)
    ∧ (function.child? .parameters = none → function.child? .parameter = none →
        parameterLine source function = []) := by
  refine ⟨isSpaced_parameterLine source function, fun parameters h => ?_, fun hmany hone => ?_⟩
  · obtain ⟨inner, hbare, heq⟩ := parameterLine_eq source h
    obtain ⟨n, hinner, hlast⟩ := Text.exists_replicate ',' (Text.trimEnd inner)
    refine ⟨inner, _, n, hbare, hinner, hlast, ?_, by rw [heq, Text.words_spaced]⟩
    have hcommas : Text.visible (List.replicate n ',') = List.replicate n ',' :=
      List.filter_replicate_of_pos (by decide)
    calc Text.visible inner
        = Text.visible (Text.trimEnd inner) := (Text.offEnd_trimEnd inner).visible_eq.symm
      _ = Text.visible (Text.dropEndWhile (· == ',') (Text.trimEnd inner)
            ++ List.replicate n ',') := congrArg Text.visible hinner
      _ = Text.visible (parameterLine source function) ++ List.replicate n ',' := by
          rw [Text.visible_append, hcommas, heq, Text.visible_spaced]
  · exact parameterLine_none source (by rw [hmany, hone]; rfl)

/-- A function with a wide blank and parentheses in its parameters, and three commas at the end of
them that do not all stand together. -/
def spareCommasText : List Char := "function f(a,\n\tb\u3000= (1) , ,,\n) \x7b\x7d".toList

/-- The node of its parameters. -/
def spareCommasList : Node := .mk ⟨.other, 10, 31, true, false, false, [.parameters]⟩ []

/-- The tree of the function. -/
def spareCommas : Node :=
  .mk ⟨.functionDeclaration, 0, 34, true, false, false, []⟩ [
    .mk ⟨.identifier, 9, 10, true, false, false, [.name]⟩ [],
    spareCommasList,
    .mk ⟨.other, 32, 34, true, false, false, []⟩ []]

/-- Two of the commas go, and the space in front of them. -/
theorem parameterLine_laws_spareCommas :
    (spareCommas.child? .parameters).or (spareCommas.child? .parameter) = some spareCommasList
    ∧ parameterLine spareCommasText spareCommas = "a, b = (1) ,".toList
    ∧ Text.IsSpaced "a, b = (1) ,".toList
    ∧ (∃ inner kept commas, Bare (spareCommasList.text spareCommasText) inner
        ∧ Text.trimEnd inner = kept ++ List.replicate commas ','
        ∧ kept.getLast? ≠ some ','
        ∧ Text.visible inner
            = Text.visible "a, b = (1) ,".toList ++ List.replicate commas ','
        ∧ Text.words "a, b = (1) ,".toList = Text.words kept)
    ∧ spareCommasList.child? .parameters = none ∧ spareCommasList.child? .parameter = none
    ∧ parameterLine spareCommasText spareCommasList = [] := by
  have hchild : (spareCommas.child? .parameters).or (spareCommas.child? .parameter)
      = some spareCommasList := rfl
  have hline : parameterLine spareCommasText spareCommas = "a, b = (1) ,".toList := by
    decide +kernel
  obtain ⟨hspaced, hparameters, -⟩ := parameterLine_laws spareCommasText spareCommas
  rw [hline] at hspaced hparameters
  exact ⟨hchild, hline, hspaced, hparameters spareCommasList hchild, rfl, rfl,
    (parameterLine_laws spareCommasText spareCommasList).2.2 rfl rfl⟩

end CallVicinity.Naming
