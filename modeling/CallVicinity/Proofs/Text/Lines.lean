import Mathlib.Data.List.DropRight
import CallVicinity.Text.Blank

/-!
# Lines and the blanks at their ends

The lines of a text are its parts between line feeds. `Text.lines_induction` goes through a text
line by line. What may be taken off a line are blanks at its start (`Text.OffStart`) and at its end
(`Text.OffEnd`); neither reaches past a character that is not blank, so that what stands before or
behind such a character stays as it is (`Text.OffEnd.append`, `Text.OffStart.append`). Trimming takes
off all that can come off (`Text.offEnds_trim`, `Text.trim_eq_of_offEnds`).
-/

namespace CallVicinity.Text

/-! ## Lines -/

theorem pieces_eq_splitOnP (p : Char → Bool) (cs : List Char) : pieces p cs = cs.splitOnP p := by
  induction cs with
  | nil => rw [List.splitOnP_nil]; rfl
  | cons c cs ih =>
    unfold pieces at ih ⊢
    rw [List.foldr_cons, ih, List.splitOnP_cons_eq_if_modifyHead]
    split
    next => rfl
    next =>
      cases hsplit : cs.splitOnP p with
      | nil => exact absurd hsplit (List.splitOnP_ne_nil _ _)
      | cons w ws => rfl

theorem pieces_lineFeed (cs : List Char) : pieces (· == '\n') cs = cs.splitOn '\n' := by
  rw [pieces_eq_splitOnP, List.splitOn_eq_splitOnP]

/-- A text without line feeds is a line. -/
theorem splitOn_line {x : List Char} (h : '\n' ∉ x) : x.splitOn '\n' = [x] := by
  rw [List.splitOn_eq_splitOnP]
  refine List.splitOnP_eq_singleton fun c hc => ?_
  rw [beq_eq_false_iff_ne]
  rintro rfl
  exact h hc

theorem splitOn_lineFeed (x y : List Char) :
    (x ++ '\n' :: y).splitOn '\n' = x.splitOn '\n' ++ y.splitOn '\n' := by
  simp only [List.splitOn_eq_splitOnP]
  exact List.splitOnP_append_cons x y rfl

/-- Every text is a line, or a line with a text on the lines after it. -/
theorem lines_induction {P : List Char → Prop} (hline : ∀ x, '\n' ∉ x → P x)
    (hmore : ∀ x y, '\n' ∉ x → P y → P (x ++ '\n' :: y)) (cs : List Char) : P cs := by
  induction hn : cs.length using Nat.strong_induction_on generalizing cs with
  | _ n ih =>
    by_cases hmem : '\n' ∈ cs
    · obtain ⟨x, y, rfl, hx⟩ := List.eq_append_cons_of_mem hmem
      refine hmore x y hx (ih y.length ?_ y rfl)
      rw [← hn, List.length_append, List.length_cons]
      omega
    · exact hline cs hmem

/-- There is one line more than there are line feeds. -/
theorem length_splitOn (cs : List Char) : (cs.splitOn '\n').length = cs.count '\n' + 1 := by
  induction cs using lines_induction with
  | hline x hx => rw [splitOn_line hx, List.count_eq_zero_of_not_mem hx]; rfl
  | hmore x y hx ih =>
    rw [splitOn_lineFeed, splitOn_line hx, List.length_append, ih, List.count_append,
      List.count_cons_self, List.count_eq_zero_of_not_mem hx]
    simp only [List.length_singleton]
    omega

theorem join_cons {sep w : List Char} {ws : List (List Char)} (h : ws ≠ []) :
    join sep (w :: ws) = w ++ sep ++ join sep ws := by
  obtain ⟨v, vs, rfl⟩ := List.exists_cons_of_ne_nil h
  rfl

/-! ## Blanks at the ends -/

/-- Nothing but blanks. -/
def AllBlank (cs : List Char) : Prop := ∀ c ∈ cs, isBlank c = true

theorem allBlank_nil : AllBlank [] := fun _ hc => absurd hc List.not_mem_nil

/-- The characters that are not blank. -/
def visible (cs : List Char) : List Char := cs.filter fun c => !isBlank c

theorem visible_append (x y : List Char) : visible (x ++ y) = visible x ++ visible y :=
  List.filter_append ..

theorem visible_lineFeed (x y : List Char) : visible (x ++ '\n' :: y) = visible x ++ visible y := by
  rw [visible_append]
  exact congrArg _ (List.filter_cons_of_neg (by decide))

/-- A text that does not end in a blank has more than nothing on its last line. -/
theorem getLast?_lineFeed {x y : List Char} {c : Char} (h : (x ++ '\n' :: y).getLast? = some c)
    (hc : isBlank c = false) : y.getLast? = some c := by
  cases y with
  | nil =>
    rw [List.getLast?_concat] at h
    obtain rfl := Option.some.inj h
    exact absurd hc (by decide)
  | cons d y =>
    rw [List.getLast?_append_of_ne_nil _ (List.cons_ne_nil _ _), List.getLast?_cons_cons] at h
    exact h

theorem AllBlank.visible_eq {cs : List Char} (h : AllBlank cs) : visible cs = [] :=
  List.filter_eq_nil_iff.mpr fun c hc => by simp [h c hc]

/-- The second text is the first without blanks at its start. -/
def OffStart (raw line : List Char) : Prop := ∃ off, raw = off ++ line ∧ AllBlank off

/-- The second text is the first without blanks at its end. -/
def OffEnd (raw line : List Char) : Prop := ∃ off, raw = line ++ off ∧ AllBlank off

/-- The second text is the first without blanks at its two ends. -/
def OffEnds (raw line : List Char) : Prop :=
  ∃ off off', raw = off ++ line ++ off' ∧ AllBlank off ∧ AllBlank off'

theorem OffStart.refl (cs : List Char) : OffStart cs cs := ⟨[], rfl, allBlank_nil⟩

theorem OffEnd.refl (cs : List Char) : OffEnd cs cs := ⟨[], by simp, allBlank_nil⟩

theorem OffEnd.trans {raw line line' : List Char} (h : OffEnd raw line) (h' : OffEnd line line') :
    OffEnd raw line' := by
  obtain ⟨off, rfl, hoff⟩ := h
  obtain ⟨off', rfl, hoff'⟩ := h'
  refine ⟨off' ++ off, by rw [List.append_assoc], ?_⟩
  intro c hc
  rcases List.mem_append.mp hc with hc | hc
  · exact hoff' c hc
  · exact hoff c hc

/-- Blanks that come off the end first and off the start then come off the two ends. -/
theorem OffEnd.offEnds {raw line line' : List Char} (h : OffEnd raw line)
    (h' : OffStart line line') : OffEnds raw line' := by
  obtain ⟨off, rfl, hoff⟩ := h
  obtain ⟨off', rfl, hoff'⟩ := h'
  exact ⟨off', off, rfl, hoff', hoff⟩

theorem OffEnds.visible_eq {raw line : List Char} (h : OffEnds raw line) :
    visible line = visible raw := by
  obtain ⟨off, off', rfl, hoff, hoff'⟩ := h
  rw [visible_append, visible_append, hoff.visible_eq, hoff'.visible_eq, List.nil_append,
    List.append_nil]

theorem OffStart.visible_eq {raw line : List Char} (h : OffStart raw line) :
    visible line = visible raw :=
  ((OffEnd.refl raw).offEnds h).visible_eq

theorem OffEnd.visible_eq {raw line : List Char} (h : OffEnd raw line) :
    visible line = visible raw :=
  (h.offEnds (OffStart.refl line)).visible_eq

theorem OffEnds.subset {raw line : List Char} (h : OffEnds raw line) : line ⊆ raw := by
  obtain ⟨off, off', rfl, -, -⟩ := h
  intro c hc
  simp [hc]

/-- What comes off the end stays behind a character that is not blank. -/
theorem OffEnd.append {x y line : List Char} (h : OffEnd (x ++ y) line) {c : Char}
    (hlast : x.getLast? = some c) (hc : isBlank c = false) :
    ∃ y', line = x ++ y' ∧ OffEnd y y' := by
  obtain ⟨off, heq, hoff⟩ := h
  rcases List.append_eq_append_iff.mp heq with ⟨y', rfl, hy⟩ | ⟨z, rfl, rfl⟩
  · exact ⟨y', rfl, off, hy, hoff⟩
  · cases hz : z.getLast? with
    | none =>
      obtain rfl := List.getLast?_eq_none_iff.mp hz
      exact ⟨[], by simp, y, rfl, hoff⟩
    | some d =>
      -- the last character of `x` would have come off
      rw [List.getLast?_append, hz] at hlast
      obtain rfl := Option.some.inj hlast
      have hblank := hoff d (List.mem_append_left _ (List.mem_of_getLast? hz))
      rw [hc] at hblank
      cases hblank

/-- What comes off the start stays in front of a character that is not blank. -/
theorem OffStart.append {x y line : List Char} {c : Char} (h : OffStart (x ++ c :: y) line)
    (hc : isBlank c = false) : ∃ x', line = x' ++ c :: y ∧ OffStart x x' := by
  obtain ⟨off, heq, hoff⟩ := h
  rcases List.append_eq_append_iff.mp heq with ⟨z, rfl, hy⟩ | ⟨x', rfl, rfl⟩
  · cases z with
    | nil => exact ⟨[], hy.symm, x, by simp, by simpa using hoff⟩
    | cons d z =>
      -- the character behind `x` would have come off
      obtain ⟨rfl, -⟩ := List.cons.inj hy
      have hblank := hoff c (by simp)
      rw [hc] at hblank
      cases hblank
  · exact ⟨x', rfl, off, rfl, hoff⟩

/-- Where a text does not begin with one of a class, none of them is dropped at its start. -/
theorem dropWhile_of_head? {p : Char → Bool} {cs : List Char} (h : ∀ c ∈ cs.head?, p c = false) :
    cs.dropWhile p = cs := by
  cases cs with
  | nil => rfl
  | cons c cs => exact List.dropWhile_cons_of_neg (by simp [h c rfl])

/-- What comes off the end of a text is all of it that can. -/
theorem exists_dropEndWhile (p : Char → Bool) (cs : List Char) :
    ∃ off, cs = dropEndWhile p cs ++ off ∧ (∀ c ∈ off, p c = true)
      ∧ ∀ c ∈ (dropEndWhile p cs).getLast?, p c = false := by
  refine ⟨cs.rtakeWhile p, (List.rdropWhile_append_rtakeWhile ..).symm,
    fun c hc => List.mem_rtakeWhile_imp hc, fun c hc => ?_⟩
  have hne : dropEndWhile p cs ≠ [] := List.ne_nil_of_mem (List.mem_of_getLast? hc)
  have hlast := List.rdropWhile_last_not p cs hne
  rw [Option.mem_def, List.getLast?_eq_getLast_of_ne_nil hne] at hc
  rw [← Option.some.inj hc]
  exact Bool.eq_false_iff.mpr hlast

theorem dropEndWhile_append {p : Char → Bool} {x off : List Char} (hoff : ∀ c ∈ off, p c = true)
    (hlast : ∀ c ∈ x.getLast?, p c = false) : dropEndWhile p (x ++ off) = x := by
  have hoff' : ∀ c ∈ off.reverse, p c = true := fun c hc => hoff c (List.mem_reverse.mp hc)
  rw [dropEndWhile, List.reverse_append, List.dropWhile_append_of_pos hoff',
    dropWhile_of_head? fun c hc => hlast c (List.head?_reverse ▸ hc), List.reverse_reverse]

theorem offEnd_trimEnd (cs : List Char) : OffEnd cs (trimEnd cs) := by
  obtain ⟨off, hcs, hoff, -⟩ := exists_dropEndWhile isBlank cs
  exact ⟨off, hcs, hoff⟩

/-- Trimming leaves no blank at the end. -/
theorem isBlank_of_getLast?_trimEnd {cs : List Char} {c : Char}
    (h : (trimEnd cs).getLast? = some c) : isBlank c = false := by
  obtain ⟨-, -, -, hlast⟩ := exists_dropEndWhile isBlank cs
  exact hlast c h

/-- Trimming takes blanks off the two ends. -/
theorem offEnds_trim (cs : List Char) : OffEnds cs (trim cs) := by
  obtain ⟨off, hoff, hblank⟩ := offEnd_trimEnd (cs.dropWhile isBlank)
  refine ⟨cs.takeWhile isBlank, off, ?_, fun c hc => List.mem_takeWhile_imp hc, hblank⟩
  rw [List.append_assoc]
  exact (List.takeWhile_append_dropWhile.symm.trans (congrArg _ hoff))

/-- Trimming leaves no blank at the start. -/
theorem isBlank_of_head?_trim {cs : List Char} {c : Char} (h : (trim cs).head? = some c) :
    isBlank c = false := by
  obtain ⟨off, hoff, -⟩ := offEnd_trimEnd (cs.dropWhile isBlank)
  have hhead : (cs.dropWhile isBlank).head? = some c := by
    rw [hoff, List.head?_append, show (trimEnd (cs.dropWhile isBlank)).head? = some c from h]
    rfl
  have hfirst := List.head?_dropWhile_not isBlank cs
  rw [hhead] at hfirst
  exact hfirst

/-- Blanks around a text that does not begin or end with one come off again. -/
theorem trim_eq_of_offEnds {raw cs : List Char} (h : OffEnds raw cs)
    (hfirst : ∀ c ∈ cs.head?, isBlank c = false) (hlast : ∀ c ∈ cs.getLast?, isBlank c = false) :
    trim raw = cs := by
  obtain ⟨before, after, rfl, hbefore, hafter⟩ := h
  rw [trim, List.append_assoc, List.dropWhile_append_of_pos hbefore]
  cases cs with
  | nil =>
    rw [List.nil_append, List.dropWhile_eq_nil_iff.mpr hafter]
    rfl
  | cons c cs =>
    have hstart : ∀ d ∈ ((c :: cs) ++ after).head?, isBlank d = false := hfirst
    rw [dropWhile_of_head? hstart]
    exact dropEndWhile_append hafter hlast

/-! ## Carriage returns before line feeds -/

/-- A line without the carriage return at its end. -/
def dropReturn (line : List Char) : List Char := (stripLast? '\r' line).getD line

/-- A text with each carriage return in front of a line feed left out. -/
def unixLines : List Char → List Char
  | [] => []
  | c :: cs => if c = '\r' ∧ cs.head? = some '\n' then unixLines cs else c :: unixLines cs

theorem dropReturn_eq (line : List Char) :
    dropReturn line = if line.getLast? = some '\r' then line.dropLast else line := by
  unfold dropReturn stripLast?
  split <;> rfl

theorem dropReturn_append {x y : List Char} (hy : y ≠ []) :
    dropReturn (x ++ y) = x ++ dropReturn y := by
  rw [dropReturn_eq, dropReturn_eq, List.getLast?_append_of_ne_nil _ hy,
    List.dropLast_append_of_ne_nil hy]
  split <;> rfl

theorem dropReturn_cons {c : Char} (hc : isBlank c = false) (cs : List Char) :
    ∃ cs', dropReturn (c :: cs) = c :: cs' := by
  cases cs with
  | nil =>
    refine ⟨[], ?_⟩
    rw [dropReturn_eq, if_neg]
    intro h
    obtain rfl := Option.some.inj h
    exact absurd hc (by decide)
  | cons d cs => exact ⟨_, dropReturn_append (x := [c]) (List.cons_ne_nil d cs)⟩

theorem offEnd_dropReturn (line : List Char) : OffEnd line (dropReturn line) := by
  rw [dropReturn_eq]
  split
  next h =>
    refine ⟨['\r'], (List.dropLast_append_getLast? _ h).symm, ?_⟩
    intro c hc
    rw [List.mem_singleton.mp hc]
    decide
  next => exact OffEnd.refl line

theorem unixLines_line {x : List Char} (h : '\n' ∉ x) : unixLines x = x := by
  induction x with
  | nil => rfl
  | cons c x ih =>
    have hx : '\n' ∉ x := fun hmem => h (List.mem_cons_of_mem _ hmem)
    rw [unixLines, if_neg fun hpair => hx (List.mem_of_head? hpair.2), ih hx]

/-- Line by line: each line but the last one loses the carriage return at its end. -/
theorem unixLines_lineFeed {x : List Char} (h : '\n' ∉ x) (y : List Char) :
    unixLines (x ++ '\n' :: y) = dropReturn x ++ '\n' :: unixLines y := by
  induction x with
  | nil => rfl
  | cons c x ih =>
    have hx : '\n' ∉ x := fun hmem => h (List.mem_cons_of_mem _ hmem)
    rw [List.cons_append, unixLines, ih hx]
    cases x with
    | nil =>
      by_cases hc : c = '\r'
      · simp [hc, dropReturn_eq]
      · simp [hc, dropReturn_eq]
    | cons d x =>
      have hd : d ≠ '\n' := fun he => hx (he ▸ List.mem_cons_self)
      have hdrop := dropReturn_append (x := [c]) (List.cons_ne_nil d x)
      rw [List.singleton_append] at hdrop
      rw [hdrop]
      simp [hd]

end CallVicinity.Text
