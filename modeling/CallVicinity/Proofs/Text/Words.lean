import CallVicinity.Proofs.Text.Lines

/-!
# The words of a text

The words of a text are its maximal runs of characters that are not blank. Written one after the
other with single spaces between them they are a text again (`Text.IsSpaced`), from which the same
words can be read (`Text.words_join`) and which has the characters of the first text that are not
blank (`Text.visible_spaced`).

Characters that are not blank may come off the end of such a text, and then a space that they leave
behind. What remains is spaced again, because it does not matter whether they come off before the
blanks become spaces or after:

> `Text.trim_dropEndWhile_spaced`: where a text does not end in a blank, its spaced form without
> such characters at the end is the spaced form of the text without them.
-/

namespace CallVicinity.Text

/-- A run of characters that are not blank. -/
structure IsWord (w : List Char) : Prop where
  ne_nil : w ≠ []
  noBlank : ∀ c ∈ w, isBlank c = false

/-- Words with single spaces between them, and nothing before the first or behind the last. -/
def IsSpaced (cs : List Char) : Prop :=
  ∃ ws : List (List Char), (∀ w ∈ ws, IsWord w) ∧ cs = [' '].intercalate ws

/-- The words of a text with single spaces between them. -/
def spaced (cs : List Char) : List Char := join [' '] (words cs)

/-! ## Splitting -/

/-- The parts between the characters of a class hold none of them. -/
theorem not_mem_of_mem_pieces {p : Char → Bool} {cs w : List Char} (hw : w ∈ pieces p cs) :
    ∀ c ∈ w, p c = false := by
  rw [pieces_eq_splitOnP] at hw
  induction cs generalizing w with
  | nil =>
    rw [List.splitOnP_nil, List.mem_singleton] at hw
    rw [hw]
    exact fun c hc => absurd hc List.not_mem_nil
  | cons d cs ih =>
    rw [List.splitOnP_cons_eq_if_modifyHead] at hw
    split at hw
    next =>
      rcases List.mem_cons.mp hw with rfl | hw
      · exact fun c hc => absurd hc List.not_mem_nil
      · exact ih hw
    next hd =>
      -- the character is put before the first part
      cases hsplit : cs.splitOnP p with
      | nil => exact absurd hsplit (List.splitOnP_ne_nil _ _)
      | cons v vs =>
        rw [hsplit] at hw ih
        rcases List.mem_cons.mp hw with rfl | hw
        · intro c hc
          rcases List.mem_cons.mp hc with rfl | hc
          · exact Bool.eq_false_iff.mpr hd
          · exact ih List.mem_cons_self c hc
        · exact ih (List.mem_cons_of_mem _ hw)

theorem words_eq_splitOnP (cs : List Char) :
    words cs = (cs.splitOnP isBlank).filter fun w => !w.isEmpty := by
  rw [words, pieces_eq_splitOnP]

theorem isWord_of_mem_words {cs w : List Char} (h : w ∈ words cs) : IsWord w := by
  obtain ⟨hpiece, hne⟩ := List.mem_filter.mp h
  exact ⟨by simpa using hne, not_mem_of_mem_pieces hpiece⟩

/-- A blank stands between words. -/
theorem words_blank {c : Char} (hc : isBlank c = true) (x y : List Char) :
    words (x ++ c :: y) = words x ++ words y := by
  simp only [words_eq_splitOnP, List.splitOnP_append_cons x y hc, List.filter_append]

/-- A text that ends in a blank, or is empty, has no word that goes on behind it. -/
theorem words_append {x : List Char} (h : ∀ c ∈ x.getLast?, isBlank c = true) (y : List Char) :
    words (x ++ y) = words x ++ words y := by
  rcases List.eq_nil_or_concat' x with rfl | ⟨x, c, rfl⟩
  · rfl
  · have hc : isBlank c = true := h c List.getLast?_concat
    rw [words_blank hc x [], List.append_assoc, List.singleton_append, words_blank hc x y]
    exact congrArg (· ++ words y) (List.append_nil (words x)).symm

/-- Blanks at the end of a text make no difference. -/
theorem OffEnd.words_eq {raw line : List Char} (h : OffEnd raw line) : words raw = words line := by
  obtain ⟨off, rfl, hoff⟩ := h
  induction off generalizing line with
  | nil => rw [List.append_nil]
  | cons c off ih =>
    have hc : isBlank c = true := hoff c List.mem_cons_self
    have hnone : words ([] ++ off) = words [] := ih fun d hd => hoff d (List.mem_cons_of_mem _ hd)
    rw [words_blank hc]
    exact (congrArg (words line ++ ·) hnone).trans (List.append_nil _)

theorem IsWord.words_eq {w : List Char} (h : IsWord w) : words w = [w] := by
  rw [words_eq_splitOnP, List.splitOnP_eq_singleton h.noBlank]
  exact List.filter_cons_of_pos (by simpa using h.ne_nil)

/-- Every text has a last run without blanks, which may be empty, and a blank in front of it if
there is anything. -/
theorem exists_lastRun (cs : List Char) : ∃ x w, cs = x ++ w ∧ (∀ c ∈ w, isBlank c = false)
    ∧ ∀ c ∈ x.getLast?, isBlank c = true := by
  obtain ⟨w, hcs, hw, hx⟩ := exists_dropEndWhile (fun c => !isBlank c) cs
  exact ⟨_, w, hcs, fun c hc => by simpa using hw c hc, fun c hc => by simpa using hx c hc⟩

/-! ## Joining -/

theorem join_eq_intercalate (sep : List Char) (ws : List (List Char)) :
    join sep ws = sep.intercalate ws := by
  induction ws with
  | nil => rfl
  | cons w ws ih =>
    cases ws with
    | nil => exact List.intercalate_singleton.symm
    | cons v vs => rw [join_cons (List.cons_ne_nil v vs), ih, List.intercalate_cons_cons]

theorem join_concat (sep w : List Char) {us : List (List Char)} (h : us ≠ []) :
    join sep (us ++ [w]) = join sep us ++ sep ++ w := by
  induction us with
  | nil => exact absurd rfl h
  | cons u us ih =>
    cases us with
    | nil => rfl
    | cons v vs =>
      have hne := List.cons_ne_nil v vs
      rw [List.cons_append, join_cons (List.append_ne_nil_of_left_ne_nil hne _), ih hne,
        join_cons hne]
      simp only [List.append_assoc]

/-- Words that are joined end with the last of them. -/
theorem exists_join_concat (sep : List Char) (us : List (List Char)) :
    ∃ r, ∀ w, join sep (us ++ [w]) = r ++ w := by
  by_cases hus : us = []
  · exact ⟨[], fun w => by rw [hus]; rfl⟩
  · exact ⟨join sep us ++ sep, fun w => join_concat sep w hus⟩

/-- Words that are joined begin with the first of them. -/
theorem exists_join_cons (sep w : List Char) (ws : List (List Char)) :
    ∃ r, join sep (w :: ws) = w ++ r := by
  by_cases hws : ws = []
  · exact ⟨[], by rw [hws, List.append_nil]; rfl⟩
  · exact ⟨sep ++ join sep ws, by rw [join_cons hws, List.append_assoc]⟩

/-- **The words that are joined are read again.** -/
theorem words_join {ws : List (List Char)} (h : ∀ w ∈ ws, IsWord w) :
    words (join [' '] ws) = ws := by
  induction ws with
  | nil => rfl
  | cons w ws ih =>
    have hw : IsWord w := h w List.mem_cons_self
    by_cases hws : ws = []
    · rw [hws]
      exact hw.words_eq
    · rw [join_cons hws, List.append_assoc, List.singleton_append,
        words_blank (by decide), hw.words_eq, ih fun v hv => h v (List.mem_cons_of_mem _ hv)]
      rfl

/-! ## Spaced texts -/

theorem isSpaced_spaced (cs : List Char) : IsSpaced (spaced cs) :=
  ⟨words cs, fun _ => isWord_of_mem_words, join_eq_intercalate _ _⟩

theorem words_spaced (cs : List Char) : words (spaced cs) = words cs :=
  words_join fun _ => isWord_of_mem_words

theorem isBlank_of_head?_spaced {cs : List Char} : ∀ c ∈ (spaced cs).head?, isBlank c = false := by
  intro c hc
  unfold spaced at hc
  cases hws : words cs with
  | nil => rw [hws] at hc; cases hc
  | cons w ws =>
    have hw : IsWord w := isWord_of_mem_words (hws ▸ List.mem_cons_self)
    obtain ⟨r, hr⟩ := exists_join_cons [' '] w ws
    rw [hws, hr, List.head?_append_of_ne_nil _ hw.ne_nil] at hc
    exact hw.noBlank c (List.mem_of_head? hc)

theorem isBlank_of_getLast?_spaced {cs : List Char} :
    ∀ c ∈ (spaced cs).getLast?, isBlank c = false := by
  intro c hc
  unfold spaced at hc
  rcases List.eq_nil_or_concat' (words cs) with hws | ⟨us, w, hws⟩
  · rw [hws] at hc
    cases hc
  · have hw : IsWord w := isWord_of_mem_words (by rw [hws]; simp)
    obtain ⟨r, hr⟩ := exists_join_concat [' '] us
    rw [hws, hr, List.getLast?_append_of_ne_nil _ hw.ne_nil] at hc
    exact hw.noBlank c (List.mem_of_getLast? hc)

theorem flatten_pieces (p : Char → Bool) (cs : List Char) :
    (pieces p cs).flatten = cs.filter fun c => !p c := by
  rw [pieces_eq_splitOnP]
  induction cs with
  | nil => rw [List.splitOnP_nil]; rfl
  | cons c cs ih =>
    rw [List.splitOnP_cons_eq_if_modifyHead]
    split
    next hc => rw [List.filter_cons_of_neg (by simp [hc]), ← ih]; rfl
    next hc =>
      rw [List.filter_cons_of_pos (by simp [hc]), ← ih]
      -- the character is put before the first part
      cases hsplit : cs.splitOnP p with
      | nil => exact absurd hsplit (List.splitOnP_ne_nil _ _)
      | cons w ws => rfl

theorem visible_join (ws : List (List Char)) : visible (join [' '] ws) = visible ws.flatten := by
  induction ws with
  | nil => rfl
  | cons w ws ih =>
    by_cases hws : ws = []
    · rw [hws, List.flatten_singleton]
      rfl
    · have hspace : visible [' '] = [] := by decide
      rw [join_cons hws, visible_append, visible_append, ih, hspace, List.append_nil,
        List.flatten_cons, visible_append]

/-- **A spaced text has all that is not blank.** -/
theorem visible_spaced (cs : List Char) : visible (spaced cs) = visible cs := by
  rw [spaced, visible_join, words, List.flatten_filter_not_isEmpty, flatten_pieces]
  simp only [visible, List.filter_filter, Bool.and_self]

theorem OffEnd.spaced_eq {raw line : List Char} (h : OffEnd raw line) : spaced raw = spaced line :=
  congrArg (join [' ']) h.words_eq

/-! ## Characters that come off the end -/

/-- A word behind a blank, or behind nothing, is the last word. -/
theorem exists_gap_of_blank {x y : List Char} (hx : ∀ c ∈ x.getLast?, isBlank c = true)
    (hy : IsWord y) : ∃ gap, spaced (x ++ y) = spaced x ++ gap ++ y ∧ AllBlank gap
      ∧ ∀ c ∈ (spaced x ++ gap).getLast?, isBlank c = true := by
  unfold spaced
  rw [words_append hx, hy.words_eq]
  by_cases hwords : words x = []
  · rw [hwords]
    exact ⟨[], rfl, allBlank_nil, fun c hc => by cases hc⟩
  · have hspace : AllBlank [' '] := by
      intro c hc
      rw [List.mem_singleton.mp hc]
      decide
    refine ⟨[' '], join_concat _ _ hwords, hspace, fun c hc => ?_⟩
    rw [List.getLast?_concat, Option.mem_some] at hc
    exact hc ▸ hspace ' ' List.mem_cons_self

/-- What goes on with the last word of a text goes on with the spaced text. -/
theorem spaced_append {x w y : List Char} (hx : ∀ c ∈ x.getLast?, isBlank c = true)
    (hw : IsWord w) (hy : ∀ c ∈ y, isBlank c = false) :
    spaced (x ++ w ++ y) = spaced (x ++ w) ++ y ∧ (spaced (x ++ w)).getLast? = w.getLast? := by
  have hlonger : IsWord (w ++ y) := by
    refine ⟨List.append_ne_nil_of_left_ne_nil hw.ne_nil y, fun c hc => ?_⟩
    rcases List.mem_append.mp hc with hc | hc
    · exact hw.noBlank c hc
    · exact hy c hc
  obtain ⟨r, hr⟩ := exists_join_concat [' '] (words x)
  unfold spaced
  rw [List.append_assoc, words_append hx, words_append hx, hw.words_eq, hlonger.words_eq, hr, hr]
  exact ⟨(List.append_assoc r w y).symm, List.getLast?_append_of_ne_nil r hw.ne_nil⟩

/-- A run without blanks at the end of a text stands at the end of the spaced text too. Between it
and what was before it is a space, or nothing. -/
theorem exists_gap {x y : List Char} (hy : ∀ c ∈ y, isBlank c = false)
    (hlast : ∀ c ∈ (x ++ y).getLast?, isBlank c = false) :
    ∃ gap, spaced (x ++ y) = spaced x ++ gap ++ y ∧ AllBlank gap
      ∧ ∀ c ∈ (spaced x ++ gap).getLast?, c ∈ x.getLast? ∨ isBlank c = true := by
  obtain ⟨x, w, rfl, hw, hx⟩ := exists_lastRun x
  by_cases hwne : w = []
  · subst hwne
    rw [List.append_nil] at hlast ⊢
    by_cases hyne : y = []
    · -- the text is `x`, of which the last character would be blank and not blank
      subst hyne
      rw [List.append_nil] at hlast
      have hnil : x = [] := by
        by_contra hne
        have hmem := List.getLast?_eq_getLast_of_ne_nil hne
        have hblank := hx _ hmem
        rw [hlast _ hmem] at hblank
        cases hblank
      rw [hnil]
      exact ⟨[], rfl, allBlank_nil, fun c hc => Or.inl hc⟩
    · obtain ⟨gap, heq, hgap, hend⟩ := exists_gap_of_blank hx ⟨hyne, hy⟩
      exact ⟨gap, heq, hgap, fun c hc => Or.inr (hend c hc)⟩
  · obtain ⟨heq, hend⟩ := spaced_append hx ⟨hwne, hw⟩ hy
    refine ⟨[], by rw [heq, List.append_nil], allBlank_nil, fun c hc => Or.inl ?_⟩
    rwa [List.append_nil, hend, ← List.getLast?_append_of_ne_nil x hwne] at hc

/-- One character may come off the end many times. -/
theorem exists_replicate (a : Char) (cs : List Char) :
    ∃ n, cs = dropEndWhile (· == a) cs ++ List.replicate n a
      ∧ (dropEndWhile (· == a) cs).getLast? ≠ some a := by
  obtain ⟨off, hcs, hoff, hlast⟩ := exists_dropEndWhile (· == a) cs
  have hall : off = List.replicate off.length a :=
    List.eq_replicate_of_mem fun c hc => beq_iff_eq.mp (hoff c hc)
  refine ⟨off.length, hall ▸ hcs, fun h => ?_⟩
  simpa using hlast a h

/-- **Characters that are not blank come off before the text is spaced or after.** -/
theorem trim_dropEndWhile_spaced {p : Char → Bool} (hp : ∀ c, p c = true → isBlank c = false)
    {cs : List Char} (hlast : ∀ c ∈ cs.getLast?, isBlank c = false) :
    trim (dropEndWhile p (spaced cs)) = spaced (dropEndWhile p cs) := by
  obtain ⟨off, hcs, hoff, hend⟩ := exists_dropEndWhile p cs
  generalize dropEndWhile p cs = kept at hcs hend ⊢
  subst hcs
  obtain ⟨gap, heq, hgap, hgapEnd⟩ := exists_gap (fun c hc => hp c (hoff c hc)) hlast
  have hdrop : dropEndWhile p (spaced kept ++ gap ++ off) = spaced kept ++ gap := by
    refine dropEndWhile_append hoff fun c hc => ?_
    rcases hgapEnd c hc with hc | hblank
    · exact hend c hc
    · cases hpc : p c with
      | false => rfl
      | true =>
        rw [hp c hpc] at hblank
        cases hblank
  rw [heq, hdrop]
  exact trim_eq_of_offEnds ⟨[], gap, rfl, allBlank_nil, hgap⟩
    isBlank_of_head?_spaced isBlank_of_getLast?_spaced

end CallVicinity.Text
