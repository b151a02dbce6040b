import CallVicinity.Proofs.Reindent.Lines
import CallVicinity.Proofs.Tree.Preorder

/-!
# Literals in re-indented text

Blanks inside a string, a template or a comment mean something, so that a literal of several lines
has to come through as it is:

> `Node.reindented?_literal`: the re-indented text holds the literal with its carriage returns
> before line feeds left out and nothing else changed, between what is left of the text before it
> and of the text behind it.

A line is protected at its start or at its end where that lies strictly inside the range of a
literal. This is enough if the literal begins and ends with a character that is not blank: the line
that holds the start of the literal ends in it, and what comes off that line at its start stays
in front of the first character (`Reindent.tidy_before_literal`); the line that holds the end begins
in the literal, and what comes off it at its end stays behind the last character
(`Reindent.tidy_literal_end`). The ranges that are looked at are those of outermost literals, and
a nested literal lies inside one of them (`Node.exists_longLiteral_around`).

For this the outermost literal has to begin and end between characters. One that begins inside a
character has no text, so that its range is not protected
(`Node.not_reindented?_literal_splitCharacter`).
-/

namespace CallVicinity

/-! ## Outermost literals -/

section Around

variable {source : List Char}

theorem Node.cut_of_text_ne_nil {n : Node} (h : n.text source ≠ []) :
    Text.cut source n.label.start n.label.stop = some (n.text source) := by
  unfold Node.text at h ⊢
  cases hcut : Text.cut source n.label.start n.label.stop with
  | none => exact absurd (by rw [hcut]; rfl) h
  | some part => rfl

theorem Node.IsLongLiteral.cut_eq {n : Node} (h : n.IsLongLiteral source) :
    Text.cut source n.label.start n.label.stop = some (n.text source) :=
  Node.cut_of_text_ne_nil (List.ne_nil_of_mem h.2)

/-- A literal that a long literal lies inside is long. -/
theorem Node.IsLongLiteral.of_inside {n m : Node} (hn : n.IsLongLiteral source)
    (hinside : n.label.Inside m.label) (hm : m.IsLiteral)
    (hstart : Text.IsBoundary source m.label.start) (hstop : Text.IsBoundary source m.label.stop) :
    m.IsLongLiteral source := by
  have hcut := hn.cut_eq
  obtain ⟨-, -, -, -, hsize⟩ := Text.cut_eq_some.mp hcut
  have hle : m.label.start ≤ m.label.stop := by
    have := hinside.1
    have := hinside.2
    omega
  obtain ⟨part, hpart⟩ := Text.exists_cut hstart hstop hle
  obtain ⟨x, y, rfl, -⟩ := Text.cut_inside hpart hcut hinside.1 hinside.2
  refine ⟨hm, ?_⟩
  rw [Node.text, hpart, Option.getD_some]
  exact List.mem_append_right _ (List.mem_append_left _ hn.2)

mutual

/-- **A long literal of a subtree lies inside a range that is protected**, if the literals around it
begin and end between characters. -/
theorem Node.exists_longLiteral_around {a : Address} {above : List Node} {s : Site}
    (hlong : s.node.IsLongLiteral source)
    (hbounds : ∀ m ∈ s.above, m.IsLiteral →
      Text.IsBoundary source m.label.start ∧ Text.IsBoundary source m.label.stop) :
    ∀ n : Node, (∀ t ∈ n.sitesAt a above, t.node.Encloses) → s ∈ n.sitesAt a above →
      ∃ r ∈ n.longLiterals source, r.1 ≤ s.node.label.start ∧ s.node.label.stop ≤ r.2
  | .mk l cs => by
    intro hnested hs
    have hinside := Node.sitesAt_inside (.mk l cs) hnested hs
    rw [Node.sitesAt] at hnested hs
    by_cases hlit : (Node.mk l cs).IsLiteral
    · -- the walk stops here, whatever is below
      have htop : (Node.mk l cs).IsLongLiteral source := by
        rcases List.mem_cons.mp hs with rfl | hs
        · exact hlong
        · have hmem : Node.mk l cs ∈ s.above :=
            (Node.sitesOfChildren_above_suffix cs 0 hs).subset List.mem_cons_self
          obtain ⟨hstart, hstop⟩ := hbounds _ hmem hlit
          exact hlong.of_inside hinside hlit hstart hstop
      rw [Node.longLiterals_of_isLiteral hlit, if_pos htop.2]
      exact ⟨_, List.mem_singleton_self _, hinside⟩
    · rw [Node.longLiterals_of_not_isLiteral hlit]
      rcases List.mem_cons.mp hs with rfl | hs
      · exact absurd hlong.1 hlit
      · exact Node.exists_longLiteral_among hlong hbounds cs 0
          (List.forall_mem_cons.mp hnested).2 hs

theorem Node.exists_longLiteral_among {a : Address} {above : List Node} {s : Site}
    (hlong : s.node.IsLongLiteral source)
    (hbounds : ∀ m ∈ s.above, m.IsLiteral →
      Text.IsBoundary source m.label.start ∧ Text.IsBoundary source m.label.stop) :
    ∀ (cs : List Node) (k : Nat), (∀ t ∈ Node.sitesOfChildren a above k cs, t.node.Encloses) →
      s ∈ Node.sitesOfChildren a above k cs → ∃ r ∈ Node.longLiteralsOfChildren source cs,
        r.1 ≤ s.node.label.start ∧ s.node.label.stop ≤ r.2
  | [] => by
    intro k _ hs
    rw [Node.sitesOfChildren] at hs
    exact absurd hs List.not_mem_nil
  | c :: cs => by
    intro k hnested hs
    rw [Node.sitesOfChildren] at hnested hs
    rw [Node.longLiteralsOfChildren]
    obtain ⟨hnested, hnested'⟩ := List.forall_mem_append.mp hnested
    rcases List.mem_append.mp hs with hs | hs
    · obtain ⟨r, hr, hin⟩ := Node.exists_longLiteral_around hlong hbounds c hnested hs
      exact ⟨r, List.mem_append_left _ hr, hin⟩
    · obtain ⟨r, hr, hin⟩ := Node.exists_longLiteral_among hlong hbounds cs _ hnested' hs
      exact ⟨r, List.mem_append_right _ hr, hin⟩

end

end Around

/-! ## A protected part of a text -/

namespace Reindent

theorem inside_of_mem {ranges : List (Nat × Nat)} {r : Nat × Nat} {offset : Nat} (hr : r ∈ ranges)
    (hstart : r.1 < offset) (hstop : offset < r.2) : inside ranges offset = true :=
  List.any_eq_true.mpr ⟨r, hr, by simp [hstart, hstop]⟩

section Literal

variable {ranges : List (Nat × Nat)} {indent : List Char}

/-- A line that begins in a literal keeps its start up to a character that is not blank. -/
theorem tidyLine_append {start : Nat} (hstart : inside ranges start = true) {x : List Char}
    {c : Char} (hlast : x.getLast? = some c) (hc : Text.isBlank c = false) (first : Bool)
    (y : List Char) :
    ∃ y', tidyLine ranges indent first start (x ++ y) = x ++ y' ∧ Text.OffEnd y y' := by
  rw [tidyLine_eq, hstart, Bool.or_true, if_pos rfl]
  exact (offEnd_tidyEnd _ _).append hlast hc

variable (hindent : ∀ c ∈ indent, isIndent c = true)
include hindent

/-- The same for the first of several lines. -/
theorem tidy_append {start : Nat} (hstart : inside ranges start = true) {x : List Char}
    (hx : '\n' ∉ x) {c : Char} (hlast : x.getLast? = some c) (hc : Text.isBlank c = false)
    (first : Bool) (after : List Char) :
    ∃ q, tidy ranges indent first start (x ++ after) = x ++ q ∧
      Text.visible q = Text.visible after := by
  by_cases hmem : '\n' ∈ after
  · obtain ⟨y, rest, rfl, hy⟩ := List.eq_append_cons_of_mem hmem
    obtain ⟨y', htidy, hoff⟩ := tidyLine_append hstart hlast hc first y
    have hline : '\n' ∉ x ++ y := by simp [hx, hy]
    rw [← List.append_assoc, tidy_cons_line hline, htidy, List.append_assoc]
    refine ⟨_, rfl, ?_⟩
    rw [Text.visible_lineFeed, Text.visible_lineFeed, visible_tidy hindent, hoff.visible_eq]
  · obtain ⟨y', htidy, hoff⟩ := tidyLine_append hstart hlast hc first after
    have hline : '\n' ∉ x ++ after := by simp [hx, hmem]
    rw [tidy_line hline, htidy]
    exact ⟨y', rfl, hoff.visible_eq⟩

/-- **The rest of a literal**, from the start of one of its lines on. -/
theorem tidy_literal_end {r : Nat × Nat} (hr : r ∈ ranges) {part : List Char} {start : Nat}
    (hstart : r.1 < start) (hstop : start + Text.byteSize part ≤ r.2) {c : Char}
    (hlast : part.getLast? = some c) (hc : Text.isBlank c = false) (first : Bool)
    (after : List Char) :
    ∃ q, tidy ranges indent first start (part ++ after) = Text.unixLines part ++ q ∧
      Text.visible q = Text.visible after := by
  induction part using Text.lines_induction generalizing first start with
  | hline x hx =>
    have hpos := Text.byteSize_pos (List.ne_nil_of_mem (List.mem_of_getLast? hlast))
    rw [Text.unixLines_line hx]
    exact tidy_append hindent (inside_of_mem hr hstart (by omega)) hx hlast hc first after
  | hmore x y hx ih =>
    have hy := Text.getLast?_lineFeed hlast hc
    have hpos := Text.byteSize_pos (List.ne_nil_of_mem (List.mem_of_getLast? hy))
    rw [Text.byteSize_lineFeed] at hstop
    have hrest : start + Text.byteSize x + 1 + Text.byteSize y ≤ r.2 := by omega
    obtain ⟨q, hq, hvisible⟩ := ih (by omega) hrest hy false
    -- the line `x` is protected at both ends
    have hline : tidyLine ranges indent first start x = Text.dropReturn x := by
      rw [tidyLine_eq, inside_of_mem hr hstart (by omega), Bool.or_true, if_pos rfl, tidyEnd,
        inside_of_mem hr (by omega) (by omega), if_pos rfl]
    refine ⟨q, ?_, hvisible⟩
    rw [List.append_assoc, List.cons_append, tidy_cons_line hx, hline, hq,
      Text.unixLines_lineFeed hx, List.append_assoc, List.cons_append]

/-- **The first line of a literal**, with all that stands before it. -/
theorem tidy_before_literal {before x : List Char} {c : Char} (hx : '\n' ∉ c :: x)
    (hc : Text.isBlank c = false) {start : Nat}
    (hstop : inside ranges (start + Text.byteSize (before ++ c :: x)) = true) (first : Bool) :
    ∃ p, tidy ranges indent first start (before ++ c :: x) = p ++ Text.dropReturn (c :: x) ∧
      Text.visible p = Text.visible before := by
  induction before using Text.lines_induction generalizing first start with
  | hline y hy =>
    have hoff : Text.OffStart (tidyEnd ranges (start + Text.byteSize (y ++ c :: x)) (y ++ c :: x))
        (tidyLine ranges indent first start (y ++ c :: x)) := offStart_tidyLine hindent _ _ _
    rw [tidyEnd, hstop, if_pos rfl, Text.dropReturn_append (List.cons_ne_nil _ _)] at hoff
    obtain ⟨x', hx'⟩ := Text.dropReturn_cons hc x
    rw [hx'] at hoff ⊢
    obtain ⟨y', hy', hoff'⟩ := hoff.append hc
    have hline : '\n' ∉ y ++ c :: x := by
      rw [List.mem_append, not_or]
      exact ⟨hy, hx⟩
    rw [tidy_line hline, hy']
    exact ⟨y', rfl, hoff'.visible_eq⟩
  | hmore y z hy ih =>
    have hsize : start + Text.byteSize (y ++ '\n' :: z ++ c :: x)
        = start + Text.byteSize y + 1 + Text.byteSize (z ++ c :: x) := by
      rw [List.append_assoc, List.cons_append, Text.byteSize_lineFeed]
      omega
    rw [hsize] at hstop
    obtain ⟨p, hp, hvisible⟩ := ih hstop false
    refine ⟨tidyLine ranges indent first start y ++ '\n' :: p, ?_, ?_⟩
    · rw [List.append_assoc, List.cons_append, tidy_cons_line hy, hp, List.append_assoc,
        List.cons_append]
    · rw [Text.visible_lineFeed, Text.visible_lineFeed, hvisible,
        (offEnds_tidyLine hindent first start y).visible_eq]

/-- **A literal of several lines**, with what stands before and behind it. -/
theorem tidy_literal {r : Nat × Nat} (hr : r ∈ ranges) {before part : List Char} {start : Nat}
    (hstart : r.1 ≤ start + Text.byteSize before)
    (hstop : start + Text.byteSize before + Text.byteSize part ≤ r.2) (hmem : '\n' ∈ part)
    {c d : Char} (hfirst : part.head? = some c) (hc : Text.isBlank c = false)
    (hlast : part.getLast? = some d) (hd : Text.isBlank d = false) (first : Bool)
    (after : List Char) :
    ∃ p q, tidy ranges indent first start (before ++ (part ++ after))
        = p ++ (Text.unixLines part ++ q) ∧
      Text.visible p = Text.visible before ∧ Text.visible q = Text.visible after := by
  obtain ⟨line, rest, rfl, hline⟩ := List.eq_append_cons_of_mem hmem
  cases line with
  | nil =>
    obtain rfl := Option.some.inj hfirst
    exact absurd hc (by decide)
  | cons c' x =>
    obtain rfl := Option.some.inj hfirst
    have hrest := Text.getLast?_lineFeed hlast hd
    have hpos := Text.byteSize_pos (List.cons_ne_nil c' x)
    have hpos' := Text.byteSize_pos (List.ne_nil_of_mem (List.mem_of_getLast? hrest))
    have hsize := Text.byteSize_append before (c' :: x)
    rw [Text.byteSize_lineFeed] at hstop
    -- the first line ends inside the literal
    have hinside : inside ranges (start + Text.byteSize (before ++ c' :: x)) = true :=
      inside_of_mem hr (by omega) (by omega)
    obtain ⟨p, hp, hvisible⟩ := tidy_before_literal hindent hline hc hinside first
    have hend : start + Text.byteSize (before ++ c' :: x) + 1 + Text.byteSize rest ≤ r.2 := by
      omega
    obtain ⟨q, hq, hvisible'⟩ :=
      tidy_literal_end hindent hr (by omega) hend hrest hd false after
    refine ⟨p, q, ?_, hvisible, hvisible'⟩
    calc tidy ranges indent first start (before ++ (c' :: x ++ '\n' :: rest ++ after))
        = tidy ranges indent first start ((before ++ c' :: x) ++ '\n' :: (rest ++ after)) := by
          simp only [List.append_assoc, List.cons_append]
      _ = p ++ Text.dropReturn (c' :: x) ++ '\n' :: (Text.unixLines rest ++ q) := by
          rw [tidy_lineFeed, hp, hq]
      _ = p ++ (Text.unixLines (c' :: x ++ '\n' :: rest) ++ q) := by
          rw [Text.unixLines_lineFeed hline]
          simp only [List.append_assoc, List.cons_append]

end Literal

end Reindent

/-- **A literal of several lines comes through re-indenting as it is**, apart from carriage returns
before line feeds, if it begins and ends with a character that is not blank. It may stand at the
printed node or anywhere below it, also in other literals, which like all nodes of a parsed text
begin and end between characters. What is before and behind it in the re-indented text has the same
characters that are not blank as what is before and behind it in the text of the node. -/
theorem Node.reindented?_literal (n : Node) (source out : List Char)
    (hnested : ∀ s ∈ n.sites, s.node.Encloses) (h : n.reindented? source = some out)
    (s : Site) (hs : s ∈ n.sites) (hlong : s.node.IsLongLiteral source)
    (hbounds : ∀ m ∈ s.above, m.IsLiteral →
      Text.IsBoundary source m.label.start ∧ Text.IsBoundary source m.label.stop)
    (c d : Char) (hfirst : (s.node.text source).head? = some c) (hc : Text.isBlank c = false)
    (hlast : (s.node.text source).getLast? = some d) (hd : Text.isBlank d = false) :
    ∃ before after p q, n.text source = before ++ (s.node.text source ++ after) ∧
      n.label.start + Text.byteSize before = s.node.label.start ∧
      out = p ++ (Text.unixLines (s.node.text source) ++ q) ∧
      Text.visible p = Text.visible before ∧ Text.visible q = Text.visible after := by
  obtain ⟨-, -, hne, rfl⟩ := Node.reindented?_eq_some.mp h
  obtain ⟨r, hr, hstart, hstop⟩ := Node.exists_longLiteral_around hlong hbounds n hnested hs
  have hinside := Node.sitesAt_inside n hnested hs
  obtain ⟨before, after, htext, hbefore⟩ :=
    Text.cut_inside (Node.cut_of_text_ne_nil hne) hlong.cut_eq hinside.1 hinside.2
  obtain ⟨-, -, -, -, hsize⟩ := Text.cut_eq_some.mp hlong.cut_eq
  rw [← hbefore] at hstart hsize
  rw [← hsize] at hstop
  obtain ⟨p, q, htidy, hvisible, hvisible'⟩ :=
    Reindent.tidy_literal (Reindent.indentAt_indents source n.label.start) hr hstart hstop hlong.2
      hfirst hc hlast hd true after
  refine ⟨before, after, p, q, htext, hbefore, ?_, hvisible, hvisible'⟩
  rw [htext]
  exact htidy

/-- The template inside a template keeps the blank and loses the carriage return in it. -/
theorem Node.reindented?_literal_indentedMethod :
    (∀ s ∈ indentedMethod.sites, s.node.Encloses) ∧
    indentedMethod.reindented? indentedMethodText = some tidyMethodText ∧
    ∃ s ∈ indentedMethod.sites, s.node.IsLongLiteral indentedMethodText ∧
      (∃ m ∈ s.above, m.IsLiteral) ∧
      s.node.text indentedMethodText = "`c \r\n    d`".toList ∧
      ∃ before after p q, indentedMethod.text indentedMethodText
          = before ++ (s.node.text indentedMethodText ++ after) ∧
        indentedMethod.label.start + Text.byteSize before = s.node.label.start ∧
        tidyMethodText = p ++ (Text.unixLines (s.node.text indentedMethodText) ++ q) ∧
        Text.visible p = Text.visible before ∧ Text.visible q = Text.visible after := by
  have hnested : ∀ s ∈ indentedMethod.sites, s.node.Encloses := by decide +kernel
  have hout : indentedMethod.reindented? indentedMethodText = some tidyMethodText := by
    decide +kernel
  have hs : indentedMethod.sites.get ⟨5, by decide⟩ ∈ indentedMethod.sites := List.get_mem _ _
  have hlong : (indentedMethod.sites.get ⟨5, by decide⟩).node.IsLongLiteral indentedMethodText := by
    decide +kernel
  refine ⟨hnested, hout, _, hs, hlong, by decide +kernel, by decide +kernel, ?_⟩
  exact Node.reindented?_literal indentedMethod indentedMethodText tidyMethodText hnested hout _
    hs hlong (by decide +kernel) _ _ rfl (by decide) rfl (by decide)

/-- A template in a template that begins inside the first character. No parser cuts a text there. -/
def splitCharacter : Node :=
  .mk ⟨.other, 0, 7, true, false, false, []⟩ [
    .mk ⟨.templateString, 1, 7, true, false, false, []⟩ [
      .mk ⟨.templateString, 3, 7, true, false, false, []⟩ []]]

/-- **A literal of several lines can lose blanks** if a literal around it begins inside a
character, although the ranges are nested. -/
theorem Node.not_reindented?_literal_splitCharacter :
    (∀ s ∈ splitCharacter.sites, s.node.Encloses) ∧
    splitCharacter.reindented? "é;a \nb".toList = some "é;a\nb".toList ∧
    ∃ s ∈ splitCharacter.sites, s.node.IsLongLiteral "é;a \nb".toList ∧
      s.node.text "é;a \nb".toList = "a \nb".toList ∧
      Text.isBlank 'a' = false ∧ Text.isBlank 'b' = false ∧
      ¬ ∃ p q, "é;a\nb".toList = p ++ (Text.unixLines (s.node.text "é;a \nb".toList) ++ q) := by
  refine ⟨by decide +kernel, by decide +kernel, splitCharacter.sites.get ⟨2, by decide⟩,
    List.get_mem _ _, by decide +kernel, by decide +kernel, by decide, by decide, ?_⟩
  intro h
  obtain ⟨p, q, hout⟩ := h
  -- the literal holds a blank, and what was written holds none
  have hkept : ' ' ∈ Text.unixLines
      ((splitCharacter.sites.get ⟨2, by decide⟩).node.text "é;a \nb".toList) := by decide +kernel
  have hblank : ' ' ∈ "é;a\nb".toList := by
    rw [hout]
    exact List.mem_append_right p (List.mem_append_left q hkept)
  exact absurd hblank (by decide)

end CallVicinity
