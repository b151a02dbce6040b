import Mathlib.Data.List.Forall2
import CallVicinity.Reindent
import CallVicinity.Proofs.Text.Lines
import CallVicinity.Proofs.Text.Parts

/-!
# What re-indenting does to a line

A line that is written at the left margin may lose blanks at its start and at its end, and nothing
else:

> `Node.reindented?_lines`: the re-indented text has the lines of the text without blanks at their
> ends, so that it has the same characters that are not blank. A line whose line feed is in no long
> literal does not end in a blank.

The lines are cut, trimmed and counted with running byte offsets. `Reindent.tidy_lineFeed` says that
these fit together: at a line feed, a text can be taken apart and its two parts be tidied alone.
-/

namespace CallVicinity

/-! ## Long literals -/

/-- A string, a template or a comment. -/
def Node.IsLiteral (n : Node) : Prop :=
  n.kind = .templateString ∨ n.kind = .string ∨ n.kind = .comment

instance (n : Node) : Decidable n.IsLiteral :=
  inferInstanceAs (Decidable (_ ∨ _))

/-- A literal of several lines. -/
def Node.IsLongLiteral (n : Node) (source : List Char) : Prop :=
  n.IsLiteral ∧ '\n' ∈ n.text source

instance (n : Node) (source : List Char) : Decidable (n.IsLongLiteral source) :=
  inferInstanceAs (Decidable (_ ∧ _))

/-- The byte at an offset is in the range of a node. -/
def Label.Covers (l : Label) (offset : Nat) : Prop :=
  l.start ≤ offset ∧ offset < l.stop

instance (l : Label) (offset : Nat) : Decidable (l.Covers offset) :=
  inferInstanceAs (Decidable (_ ∧ _))

section LongLiterals

variable {source : List Char}

theorem Node.longLiterals_of_isLiteral {n : Node} (h : n.IsLiteral) :
    n.longLiterals source
      = if '\n' ∈ n.text source then [(n.label.start, n.label.stop)] else [] := by
  obtain ⟨l, cs⟩ := n
  have hkind : l.kind = .templateString ∨ l.kind = .string ∨ l.kind = .comment := h
  rw [Node.longLiterals]
  rcases hkind with hkind | hkind | hkind <;> rw [hkind] <;> simp [Node.label]

theorem Node.longLiterals_of_not_isLiteral {n : Node} (h : ¬ n.IsLiteral) :
    n.longLiterals source = Node.longLiteralsOfChildren source n.children := by
  obtain ⟨l, cs⟩ := n
  have hkind : ¬ (l.kind = .templateString ∨ l.kind = .string ∨ l.kind = .comment) := h
  rw [Node.longLiterals]
  split <;> simp_all [Node.children]

mutual

/-- The ranges that are protected are those of long literals. -/
theorem Node.exists_of_mem_longLiterals {a : Address} {above : List Node} {r : Nat × Nat} :
    ∀ n : Node, r ∈ n.longLiterals source → ∃ s ∈ n.sitesAt a above,
      s.node.IsLongLiteral source ∧ r = (s.node.label.start, s.node.label.stop)
  | .mk l cs => by
    intro hr
    rw [Node.sitesAt]
    by_cases hlit : (Node.mk l cs).IsLiteral
    · rw [Node.longLiterals_of_isLiteral hlit] at hr
      split at hr
      next hlong =>
        exact ⟨_, List.mem_cons_self, ⟨hlit, hlong⟩, List.mem_singleton.mp hr⟩
      next => exact absurd hr List.not_mem_nil
    · rw [Node.longLiterals_of_not_isLiteral hlit] at hr
      obtain ⟨s, hs, hlong⟩ := Node.exists_of_mem_longLiteralsOfChildren cs 0 hr
      exact ⟨s, List.mem_cons_of_mem _ hs, hlong⟩

theorem Node.exists_of_mem_longLiteralsOfChildren {a : Address} {above : List Node}
    {r : Nat × Nat} : ∀ (cs : List Node) (k : Nat), r ∈ Node.longLiteralsOfChildren source cs →
      ∃ s ∈ Node.sitesOfChildren a above k cs,
        s.node.IsLongLiteral source ∧ r = (s.node.label.start, s.node.label.stop)
  | [] => by
    intro k hr
    rw [Node.longLiteralsOfChildren] at hr
    exact absurd hr List.not_mem_nil
  | c :: cs => by
    intro k hr
    rw [Node.longLiteralsOfChildren] at hr
    rw [Node.sitesOfChildren]
    rcases List.mem_append.mp hr with hr | hr
    · obtain ⟨s, hs, hlong⟩ := Node.exists_of_mem_longLiterals c hr
      exact ⟨s, List.mem_append_left _ hs, hlong⟩
    · obtain ⟨s, hs, hlong⟩ := Node.exists_of_mem_longLiteralsOfChildren cs (k + 1) hr
      exact ⟨s, List.mem_append_right _ hs, hlong⟩

end

end LongLiterals

namespace Reindent

/-! ## One line -/

theorem isBlank_of_isIndent {c : Char} (h : isIndent c = true) : Text.isBlank c = true := by
  simp only [isIndent, Bool.or_eq_true, beq_iff_eq] at h
  rcases h with rfl | rfl <;> decide

theorem indentAt_indents (source : List Char) (offset : Nat) :
    ∀ c ∈ indentAt source offset, isIndent c = true := by
  intro c hc
  exact List.mem_takeWhile_imp hc

section Line

variable {ranges : List (Nat × Nat)} {indent : List Char}
  (hindent : ∀ c ∈ indent, isIndent c = true)

/-- What happens at the end of a line that ends at byte `stop`. -/
def tidyEnd (ranges : List (Nat × Nat)) (stop : Nat) (raw : List Char) : List Char :=
  if inside ranges stop then Text.dropReturn raw else Text.trimEnd (Text.dropReturn raw)

/-- A line is tidied at its end first and at its start then. -/
theorem tidyLine_eq (first : Bool) (start : Nat) (raw : List Char) :
    tidyLine ranges indent first start raw
      = if first || inside ranges start then tidyEnd ranges (start + Text.byteSize raw) raw
        else unindent indent (tidyEnd ranges (start + Text.byteSize raw) raw) := rfl

theorem offEnd_tidyEnd (stop : Nat) (raw : List Char) :
    Text.OffEnd raw (tidyEnd ranges stop raw) := by
  unfold tidyEnd
  split
  · exact Text.offEnd_dropReturn raw
  · exact (Text.offEnd_dropReturn raw).trans (Text.offEnd_trimEnd _)

include hindent

theorem offStart_unindent (line : List Char) : Text.OffStart line (unindent indent line) := by
  unfold unindent Text.stripStart?
  split
  next h =>
    obtain ⟨rest, rfl⟩ := List.isPrefixOf_iff_prefix.mp h
    refine ⟨indent, ?_, fun c hc => isBlank_of_isIndent (hindent c hc)⟩
    rw [Option.getD_some, List.drop_left]
  next =>
    exact ⟨line.takeWhile isIndent, List.takeWhile_append_dropWhile.symm,
      fun c hc => isBlank_of_isIndent (List.mem_takeWhile_imp hc)⟩

theorem offStart_tidyLine (first : Bool) (start : Nat) (raw : List Char) :
    Text.OffStart (tidyEnd ranges (start + Text.byteSize raw) raw)
      (tidyLine ranges indent first start raw) := by
  rw [tidyLine_eq]
  split
  · exact Text.OffStart.refl _
  · exact offStart_unindent hindent _

/-- **A line loses blanks at its ends only.** -/
theorem offEnds_tidyLine (first : Bool) (start : Nat) (raw : List Char) :
    Text.OffEnds raw (tidyLine ranges indent first start raw) :=
  (offEnd_tidyEnd _ raw).offEnds (offStart_tidyLine hindent first start raw)

theorem lineFeed_not_mem_tidyLine {raw : List Char} (h : '\n' ∉ raw) (first : Bool) (start : Nat) :
    '\n' ∉ tidyLine ranges indent first start raw :=
  fun hmem => h ((offEnds_tidyLine hindent first start raw).subset hmem)

/-- A line that does not end in a literal does not end in a blank. -/
theorem getLast?_tidyLine {first : Bool} {start : Nat} {raw : List Char} {c : Char}
    (hout : inside ranges (start + Text.byteSize raw) = false)
    (hc : (tidyLine ranges indent first start raw).getLast? = some c) : Text.isBlank c = false := by
  have htrim : tidyEnd ranges (start + Text.byteSize raw) raw
      = Text.trimEnd (Text.dropReturn raw) := by
    rw [tidyEnd, hout, if_neg Bool.false_ne_true]
  have hstart : Text.OffStart (tidyEnd ranges (start + Text.byteSize raw) raw)
      (tidyLine ranges indent first start raw) := offStart_tidyLine hindent first start raw
  rw [htrim] at hstart
  obtain ⟨off, heq, -⟩ := hstart
  have hlast : (Text.trimEnd (Text.dropReturn raw)).getLast? = some c := by
    rw [heq, List.getLast?_append, hc]
    rfl
  exact Text.isBlank_of_getLast?_trimEnd hlast

end Line

/-! ## All lines -/

/-- The text with its lines tidied; the first of them starts at byte `start`. -/
def tidy (ranges : List (Nat × Nat)) (indent : List Char) (first : Bool) (start : Nat)
    (text : List Char) : List Char :=
  Text.join ['\n'] (tidyLines ranges indent first start (text.splitOn '\n'))

section Lines

variable {ranges : List (Nat × Nat)} {indent : List Char}

theorem tidy_line {x : List Char} (h : '\n' ∉ x) (first : Bool) (start : Nat) :
    tidy ranges indent first start x = tidyLine ranges indent first start x := by
  rw [tidy, Text.splitOn_line h, tidyLines, tidyLines]
  rfl

theorem tidyLines_ne_nil {lines : List (List Char)} (h : lines ≠ []) (first : Bool) (start : Nat) :
    tidyLines ranges indent first start lines ≠ [] := by
  obtain ⟨line, lines, rfl⟩ := List.exists_cons_of_ne_nil h
  rw [tidyLines]
  exact List.cons_ne_nil _ _

/-- A first line is tidied alone. -/
theorem tidy_cons_line {x : List Char} (h : '\n' ∉ x) (y : List Char) (first : Bool) (start : Nat) :
    tidy ranges indent first start (x ++ '\n' :: y)
      = tidyLine ranges indent first start x ++
          '\n' :: tidy ranges indent false (start + Text.byteSize x + 1) y := by
  rw [tidy, Text.splitOn_lineFeed, Text.splitOn_line h, List.singleton_append, tidyLines,
    Text.join_cons (tidyLines_ne_nil (List.splitOn_ne_nil _ y) _ _), List.append_assoc]
  rfl

/-- **At a line feed, a text can be taken apart and its parts be tidied alone.** -/
theorem tidy_lineFeed (x y : List Char) (first : Bool) (start : Nat) :
    tidy ranges indent first start (x ++ '\n' :: y)
      = tidy ranges indent first start x ++
          '\n' :: tidy ranges indent false (start + Text.byteSize x + 1) y := by
  induction x using Text.lines_induction generalizing first start with
  | hline x hx => rw [tidy_cons_line hx, tidy_line hx]
  | hmore x x' hx ih =>
    have hsize : start + Text.byteSize (x ++ '\n' :: x') + 1
        = start + Text.byteSize x + 1 + Text.byteSize x' + 1 := by
      rw [Text.byteSize_lineFeed]
      omega
    rw [List.append_assoc, List.cons_append, tidy_cons_line hx, tidy_cons_line hx, ih, hsize,
      List.append_assoc]
    rfl

variable (hindent : ∀ c ∈ indent, isIndent c = true)
include hindent

/-- The lines of a tidied text are the lines of the text without blanks at their ends. -/
theorem offEnds_tidy (text : List Char) (first : Bool) (start : Nat) :
    List.Forall₂ Text.OffEnds (text.splitOn '\n')
      ((tidy ranges indent first start text).splitOn '\n') := by
  induction text using Text.lines_induction generalizing first start with
  | hline x hx =>
    rw [tidy_line hx, Text.splitOn_line hx,
      Text.splitOn_line (lineFeed_not_mem_tidyLine hindent hx first start)]
    exact .cons (offEnds_tidyLine hindent first start x) .nil
  | hmore x y hx ih =>
    rw [tidy_cons_line hx, Text.splitOn_lineFeed, Text.splitOn_lineFeed, Text.splitOn_line hx,
      Text.splitOn_line (lineFeed_not_mem_tidyLine hindent hx first start)]
    exact .cons (offEnds_tidyLine hindent first start x) (ih _ _)

/-- Tidying keeps the number of lines. -/
theorem count_tidy (text : List Char) (first : Bool) (start : Nat) :
    (tidy ranges indent first start text).count '\n' = text.count '\n' := by
  have hlength : (text.splitOn '\n').length
      = ((tidy ranges indent first start text).splitOn '\n').length :=
    (offEnds_tidy hindent text first start).length_eq
  rw [Text.length_splitOn, Text.length_splitOn] at hlength
  omega

/-- Tidying keeps the characters that are not blank. -/
theorem visible_tidy (text : List Char) (first : Bool) (start : Nat) :
    Text.visible (tidy ranges indent first start text) = Text.visible text := by
  induction text using Text.lines_induction generalizing first start with
  | hline x hx =>
    rw [tidy_line hx]
    exact (offEnds_tidyLine hindent first start x).visible_eq
  | hmore x y hx ih =>
    rw [tidy_cons_line hx, Text.visible_lineFeed, Text.visible_lineFeed, ih,
      (offEnds_tidyLine hindent first start x).visible_eq]

/-- The last line of a tidied text does not end in a blank if the text does not end in a literal. -/
theorem getLast?_tidy {text : List Char} {first : Bool} {start : Nat}
    (hout : inside ranges (start + Text.byteSize text) = false) {line : List Char} {c : Char}
    (hline : ((tidy ranges indent first start text).splitOn '\n').getLast? = some line)
    (hc : line.getLast? = some c) : Text.isBlank c = false := by
  induction text using Text.lines_induction generalizing first start with
  | hline x hx =>
    rw [tidy_line hx, Text.splitOn_line (lineFeed_not_mem_tidyLine hindent hx first start)] at hline
    obtain rfl := Option.some.inj hline
    exact getLast?_tidyLine hindent hout hc
  | hmore x y hx ih =>
    have hsize : start + Text.byteSize (x ++ '\n' :: y)
        = start + Text.byteSize x + 1 + Text.byteSize y := by
      rw [Text.byteSize_lineFeed]
      omega
    rw [hsize] at hout
    rw [tidy_cons_line hx, Text.splitOn_lineFeed,
      List.getLast?_append_of_ne_nil _ (List.splitOn_ne_nil _ _)] at hline
    exact ih hout hline

end Lines

end Reindent

/-! ## Nodes -/

/-- When a node has a re-indented text, and which. -/
theorem Node.reindented?_eq_some {n : Node} {source out : List Char} :
    n.reindented? source = some out ↔
      n.label.faulty = false ∧ n.label.missing = false ∧ n.text source ≠ [] ∧
      out = Reindent.tidy (n.longLiterals source) (Reindent.indentAt source n.label.start) true
        n.label.start (n.text source) := by
  unfold Node.reindented? Reindent.tidy
  rw [← Text.pieces_lineFeed]
  simp only [Option.ite_none_left_eq_some, Option.some.injEq, Bool.or_eq_true, List.isEmpty_iff,
    not_or, Bool.not_eq_true]
  constructor
  · rintro ⟨⟨⟨hfaulty, hmissing⟩, hne⟩, rfl⟩
    exact ⟨hfaulty, hmissing, hne, rfl⟩
  · rintro ⟨hfaulty, hmissing, hne, rfl⟩
    exact ⟨⟨⟨hfaulty, hmissing⟩, hne⟩, rfl⟩

/-- An offset in no long literal is not protected. -/
theorem Node.inside_longLiterals_eq_false {n : Node} {source : List Char} {offset : Nat}
    (h : ∀ s ∈ n.sites, s.node.IsLongLiteral source → ¬ s.node.label.Covers offset) :
    Reindent.inside (n.longLiterals source) offset = false := by
  refine List.any_eq_false.mpr ?_
  intro r hr hin
  obtain ⟨s, hs, hlong, rfl⟩ : ∃ s ∈ n.sites, s.node.IsLongLiteral source ∧
      r = (s.node.label.start, s.node.label.stop) := Node.exists_of_mem_longLiterals n hr
  simp only [Bool.and_eq_true, decide_eq_true_eq] at hin
  exact h s hs hlong ⟨Nat.le_of_lt hin.1, hin.2⟩

/-- **Re-indenting takes blanks off the ends of lines and does nothing else.** The re-indented text
has as many line feeds as the text; each of its lines is the line of the text without some blanks
at its two ends, so that the characters that are not blank are the same. A line whose line feed lies
in no long literal at or below the node does not end in a blank. -/
theorem Node.reindented?_lines (n : Node) (source out : List Char)
    (h : n.reindented? source = some out) :
    out.count '\n' = (n.text source).count '\n' ∧
    List.Forall₂ Text.OffEnds ((n.text source).splitOn '\n') (out.splitOn '\n') ∧
    Text.visible out = Text.visible (n.text source) ∧
    ∀ before after, n.text source = before ++ '\n' :: after →
      (∀ s ∈ n.sites, s.node.IsLongLiteral source →
        ¬ s.node.label.Covers (n.label.start + Text.byteSize before)) →
      ∀ line c, (out.splitOn '\n')[before.count '\n']? = some line → line.getLast? = some c →
        Text.isBlank c = false := by
  obtain ⟨-, -, -, rfl⟩ := Node.reindented?_eq_some.mp h
  have hindent := Reindent.indentAt_indents source n.label.start
  generalize Reindent.indentAt source n.label.start = indent at hindent
  refine ⟨?_, Reindent.offEnds_tidy hindent _ _ _, Reindent.visible_tidy hindent _ _ _, ?_⟩
  · exact Reindent.count_tidy hindent _ _ _
  · intro before after hsplit hout line c hline hc
    -- the line that the line feed ends is the last one of what stands before
    have hlast : ((Reindent.tidy (n.longLiterals source) indent true n.label.start before).splitOn
        '\n').getLast? = some line := by
      have hlength := Text.length_splitOn
        (Reindent.tidy (n.longLiterals source) indent true n.label.start before)
      rw [Reindent.count_tidy hindent] at hlength
      rw [hsplit, Reindent.tidy_lineFeed, Text.splitOn_lineFeed,
        List.getElem?_append_left (by omega)] at hline
      rw [List.getLast?_eq_getElem?, hlength]
      exact hline
    exact Reindent.getLast?_tidy hindent (Node.inside_longLiterals_eq_false hout) hlast hc

/-- The text of a class whose method holds a template in a template, with a tab, carriage returns
and blanks at the ends of lines. -/
def indentedMethodText : List Char :=
  ("class A \x7b\n  m() \x7b  \r\n\treturn `é  \r\n  b$\x7b`c \r\n    d`\x7d`;\t\n  \x7d\n" ++
    "\x7d\n").toList

/-- The tree of the method. -/
def indentedMethod : Node :=
  .mk ⟨.methodDefinition, 12, 60, true, false, false, []⟩ [
    .mk ⟨.propertyIdentifier, 12, 13, true, false, false, [.name]⟩ [],
    .mk ⟨.other, 16, 60, true, false, false, []⟩ [
      .mk ⟨.templateString, 29, 54, true, false, false, []⟩ [
        .mk ⟨.other, 39, 53, true, false, false, []⟩ [
          .mk ⟨.templateString, 41, 52, true, false, false, []⟩ []]]]]

/-- The re-indented method. -/
def tidyMethodText : List Char :=
  "m() \x7b\nreturn `é  \n  b$\x7b`c \n    d`\x7d`;\n\x7d".toList

/-- The blanks inside the templates stay, and those behind the first brace go. -/
theorem Node.reindented?_lines_indentedMethod :
    indentedMethod.reindented? indentedMethodText = some tidyMethodText ∧
    tidyMethodText.count '\n' = (indentedMethod.text indentedMethodText).count '\n' ∧
    List.Forall₂ Text.OffEnds ((indentedMethod.text indentedMethodText).splitOn '\n')
      (tidyMethodText.splitOn '\n') ∧
    Text.visible tidyMethodText = Text.visible (indentedMethod.text indentedMethodText) ∧
    (tidyMethodText.splitOn '\n')[0]? = some "m() \x7b".toList ∧ Text.isBlank '\x7b' = false := by
  have hout : indentedMethod.reindented? indentedMethodText = some tidyMethodText := by
    decide +kernel
  have hline : (tidyMethodText.splitOn '\n')[0]? = some "m() \x7b".toList := by decide +kernel
  obtain ⟨hcount, hlines, hvisible, hend⟩ :=
    Node.reindented?_lines indentedMethod indentedMethodText tidyMethodText hout
  refine ⟨hout, hcount, hlines, hvisible, hline, ?_⟩
  refine hend "m() \x7b  \r".toList
    "\treturn `é  \r\n  b$\x7b`c \r\n    d`\x7d`;\t\n  \x7d".toList (by decide +kernel)
    (by decide +kernel) _ _ hline (by decide +kernel)

end CallVicinity
