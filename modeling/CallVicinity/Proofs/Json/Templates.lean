import CallVicinity.Proofs.Json.Words

/-!
# Escapes that can be taken back

A text between backticks has a backslash before every backtick and before every opening of a
placeholder, and no other escapes: backslashes of the text itself stay as they are. Nevertheless
the text can be had back, since the backslashes that were put in can be told from those that were
there. Putting a mark before every occurrence of a part, from left to right, is undone by taking it
off again wherever the part follows it, if only the mark is none of the characters of the part
(`Text.replace_replace`). A mark that was there before is kept, because behind it there was no part,
or there is the mark that was put in.

Escaping is two replacements of this kind (`escapeBackticks_eq_replace`,
`escapeOpenings_eq_replace`), so it is undone by the opposite two, the later one first:

> `Json.escapeTemplate_undone`: undoing the escapes gives the text, whatever it holds, and every
> backtick and every opening that is left in the escaped text has a backslash before it.
-/

namespace CallVicinity

/-! ## Replacing a part of a text -/

namespace Text

/-- The text with `new` in the place of every occurrence of `part`, from left to right and without
overlaps, where the first `skip` characters belong to an occurrence before them. -/
def replaceFrom (part new : List Char) : Nat → List Char → List Char
  | _, [] => []
  | skip + 1, _ :: cs => replaceFrom part new skip cs
  | 0, c :: cs =>
    if part.isPrefixOf (c :: cs) then new ++ replaceFrom part new (part.length - 1) cs
    else c :: replaceFrom part new 0 cs

/-- The text with `new` in the place of every occurrence of a part that is not empty. -/
def replace (part new cs : List Char) : List Char := replaceFrom part new 0 cs

section Replace

variable {part new : List Char}

theorem replaceFrom_eq_drop (skip : Nat) (cs : List Char) :
    replaceFrom part new skip cs = replace part new (cs.drop skip) := by
  induction cs generalizing skip with
  | nil => simp [replace, replaceFrom]
  | cons c cs ih =>
    cases skip with
    | zero => rfl
    | succ skip => exact ih skip

theorem replace_append (hne : part ≠ []) (cs : List Char) :
    replace part new (part ++ cs) = new ++ replace part new cs := by
  obtain ⟨c, rest, rfl⟩ := List.exists_cons_of_ne_nil hne
  have hpart : (c :: rest).isPrefixOf (c :: (rest ++ cs)) = true :=
    List.isPrefixOf_iff_prefix.mpr (List.prefix_append (c :: rest) cs)
  show replaceFrom _ _ 0 (c :: (rest ++ cs)) = _
  rw [replaceFrom, if_pos hpart, replaceFrom_eq_drop, List.length_cons, Nat.add_sub_cancel,
    List.drop_left]

theorem replace_cons {c : Char} {cs : List Char} (h : ¬ part <+: c :: cs) :
    replace part new (c :: cs) = c :: replace part new cs := by
  unfold replace
  rw [replaceFrom, if_neg fun hpart => h (List.isPrefixOf_iff_prefix.mp hpart)]

/-- A text is read as a replacement reads it: by occurrences of the part, and by single characters
where the part does not begin. -/
theorem replace_induction {P : List Char → Prop} (hne : part ≠ []) (hnil : P [])
    (hpart : ∀ cs, P cs → P (part ++ cs))
    (hcons : ∀ c cs, ¬ part <+: c :: cs → P cs → P (c :: cs)) (cs : List Char) : P cs := by
  by_cases h : part <+: cs
  · obtain ⟨rest, rfl⟩ := h
    exact hpart rest (replace_induction hne hnil hpart hcons rest)
  · cases cs with
    | nil => exact hnil
    | cons c cs => exact hcons c cs h (replace_induction hne hnil hpart hcons cs)
termination_by cs.length
decreasing_by
  · have hpos := List.length_pos_of_ne_nil hne
    have hlength := congrArg List.length ‹part ++ rest = _›
    rw [List.length_append] at hlength
    omega
  · simp

end Replace

section Marks

variable {mark : Char} {part : List Char}

/-- Marks that are put in hide nothing but what they stand before: a text without the mark at the
front of the marked text was there before. -/
theorem prefix_of_prefix_replace (hne : part ≠ []) (cs : List Char) :
    ∀ p : List Char, mark ∉ p → p <+: replace part (mark :: part) cs → p <+: cs := by
  induction cs using replace_induction hne with
  | hnil => exact fun p _ h => h
  | hpart cs _ =>
    intro p hmark h
    rw [replace_append hne] at h
    cases p with
    | nil => exact List.nil_prefix
    | cons d p =>
      exact absurd (List.mem_cons.mpr (Or.inl (List.cons_prefix_cons.mp h).1.symm)) hmark
  | hcons c cs hpart ih =>
    intro p hmark h
    rw [replace_cons hpart] at h
    cases p with
    | nil => exact List.nil_prefix
    | cons d p =>
      obtain ⟨hd, hp⟩ := List.cons_prefix_cons.mp h
      have hmark' : mark ∉ p := fun hmem => hmark (List.mem_cons_of_mem _ hmem)
      exact List.cons_prefix_cons.mpr ⟨hd, ih p hmark' hp⟩

/-- **Marks before the occurrences of a part are taken off again**, also where the text holds marks
of its own. -/
theorem replace_replace (hne : part ≠ []) (hmark : mark ∉ part) (cs : List Char) :
    replace (mark :: part) part (replace part (mark :: part) cs) = cs := by
  induction cs using replace_induction hne with
  | hnil => rfl
  | hpart cs ih =>
    rw [replace_append hne, replace_append (List.cons_ne_nil mark part), ih]
  | hcons c cs hpart ih =>
    have hfirst : ¬ mark :: part <+: c :: replace part (mark :: part) cs := by
      intro h
      -- behind the character the part begins, so it did before, and there it has got its mark
      have hmarked := (List.cons_prefix_cons.mp h).2
      obtain ⟨rest, rfl⟩ := prefix_of_prefix_replace hne cs part hmark hmarked
      rw [replace_append hne] at hmarked
      obtain ⟨d, part, rfl⟩ := List.exists_cons_of_ne_nil hne
      exact hmark (List.mem_cons.mpr (Or.inl (List.cons_prefix_cons.mp hmarked).1.symm))
    rw [replace_cons hpart, replace_cons hfirst, ih]

/-- Every occurrence of a part in a text has the mark right before it. -/
def Guarded (mark : Char) (part text : List Char) : Prop :=
  ∀ before after, text = before ++ (part ++ after) → before.getLast? = some mark

theorem guarded_nil (hne : part ≠ []) : Guarded mark part [] := by
  intro before after h
  have hpart := (List.append_eq_nil_iff.mp (List.append_eq_nil_iff.mp h.symm).2).1
  exact absurd hpart hne

/-- A character may stand before a guarded text where no occurrence begins with it. -/
theorem Guarded.cons {c : Char} {text : List Char} (htext : Guarded mark part text)
    (hc : ¬ part <+: c :: text) : Guarded mark part (c :: text) := by
  intro before after h
  cases before with
  | nil => exact absurd ⟨after, h.symm⟩ hc
  | cons d before =>
    rw [List.getLast?_cons, htext before after (List.cons.inj h).2]
    rfl

/-- Behind the mark, an occurrence may begin with any character. -/
theorem Guarded.marked {d : Char} {text : List Char} (htext : Guarded mark part text)
    (hmark : ¬ part <+: mark :: d :: text) : Guarded mark part (mark :: d :: text) := by
  intro before after h
  match before with
  | [] => exact absurd ⟨after, h.symm⟩ hmark
  | [e] => rw [← (List.cons.inj h).1]; rfl
  | e :: f :: before =>
    have hrest := (List.cons.inj (List.cons.inj h).2).2
    rw [List.getLast?_cons_cons, List.getLast?_cons, htext before after hrest]
    rfl

end Marks

end Text

/-! ## Escapes between backticks -/

namespace Json

theorem escapeBackticks_eq_replace (cs : List Char) :
    escapeBackticks cs = Text.replace ['\x60'] ['\\', '\x60'] cs := by
  induction cs using Text.replace_induction (List.cons_ne_nil '\x60' []) with
  | hnil => rfl
  | hpart cs ih =>
    rw [Text.replace_append (List.cons_ne_nil _ _), ← ih]
    rfl
  | hcons c cs hc ih =>
    have hne : c ≠ '\x60' := by
      rintro rfl
      exact hc (List.prefix_append ['\x60'] cs)
    rw [Text.replace_cons hc, ← ih, escapeBackticks, List.flatMap_cons, if_neg hne]
    rfl

theorem escapeOpenings_eq_replace (cs : List Char) :
    escapeOpenings cs = Text.replace ['$', '{'] ['\\', '$', '{'] cs := by
  induction cs using Text.replace_induction (List.cons_ne_nil '$' ['{']) with
  | hnil => rfl
  | hpart cs ih =>
    rw [Text.replace_append (List.cons_ne_nil _ _), ← ih]
    rfl
  | hcons c cs hc ih =>
    rw [Text.replace_cons hc, ← ih, escapeOpenings]
    rintro rest rfl rfl
    exact hc (List.prefix_append ['$', '{'] rest)

/-- A text as its escapes read it: by backticks, openings and all other characters. -/
theorem template_induction {P : List Char → Prop} (hnil : P [])
    (hbacktick : ∀ cs, P cs → P ('\x60' :: cs)) (hopening : ∀ cs, P cs → P ('$' :: '{' :: cs))
    (hplain : ∀ c cs, c ≠ '\x60' → (∀ rest, c = '$' → cs ≠ '{' :: rest) → P cs → P (c :: cs))
    (cs : List Char) : P cs := by
  induction cs using Text.replace_induction (List.cons_ne_nil '$' ['{']) with
  | hnil => exact hnil
  | hpart cs ih => exact hopening cs ih
  | hcons c cs hc ih =>
    by_cases hback : c = '\x60'
    · rw [hback]
      exact hbacktick cs ih
    · refine hplain c cs hback ?_ ih
      rintro rest rfl rfl
      exact hc (List.prefix_append ['$', '{'] rest)

/-- A brace at the front of an escaped text was there before. -/
theorem exists_brace_of_escapeTemplate {cs rest : List Char}
    (h : escapeTemplate cs = '{' :: rest) : ∃ rest', cs = '{' :: rest' := by
  cases cs using template_induction with
  | hnil => cases h
  | hbacktick cs => rw [escapeTemplate_backtick] at h; exact absurd (List.cons.inj h).1 (by decide)
  | hopening cs => rw [escapeTemplate_opening] at h; exact absurd (List.cons.inj h).1 (by decide)
  | hplain c cs hback hopen =>
    rw [escapeTemplate_plain hback hopen] at h
    exact ⟨cs, by rw [(List.cons.inj h).1]⟩

theorem guarded_backtick (cs : List Char) :
    Text.Guarded '\\' ['\x60'] (escapeTemplate cs) := by
  induction cs using template_induction with
  | hnil => exact Text.guarded_nil (List.cons_ne_nil _ _)
  | hbacktick cs ih =>
    rw [escapeTemplate_backtick]
    exact ih.marked (by simp)
  | hopening cs ih =>
    rw [escapeTemplate_opening]
    exact (ih.cons (by simp)).marked (by simp)
  | hplain c cs hback hopen ih =>
    rw [escapeTemplate_plain hback hopen]
    exact ih.cons (by simpa using Ne.symm hback)

theorem guarded_opening (cs : List Char) :
    Text.Guarded '\\' ['$', '{'] (escapeTemplate cs) := by
  induction cs using template_induction with
  | hnil => exact Text.guarded_nil (List.cons_ne_nil _ _)
  | hbacktick cs ih =>
    rw [escapeTemplate_backtick]
    exact ih.marked (by simp)
  | hopening cs ih =>
    rw [escapeTemplate_opening]
    exact (ih.cons (by simp)).marked (by simp)
  | hplain c cs hback hopen ih =>
    rw [escapeTemplate_plain hback hopen]
    refine ih.cons ?_
    -- the brace behind the dollar sign would make an opening of the text itself
    intro h
    obtain ⟨hdollar, rest, hrest⟩ := List.cons_prefix_cons.mp h
    obtain ⟨rest', hcs⟩ := exists_brace_of_escapeTemplate hrest.symm
    exact hopen rest' hdollar.symm hcs

/-- **Escapes can be taken back.** Replacing the escaped openings and then the escaped backticks by
what they stand for gives the text, and the escaped text has a backslash right before every backtick
and every opening of a placeholder. -/
theorem escapeTemplate_undone (x : String) :
    Text.replace ['\\', '\x60'] ['\x60']
        (Text.replace ['\\', '$', '{'] ['$', '{'] (escapeTemplate x.toList)) = x.toList
      ∧ Text.Guarded '\\' ['\x60'] (escapeTemplate x.toList)
      ∧ Text.Guarded '\\' ['$', '{'] (escapeTemplate x.toList) := by
  refine ⟨?_, guarded_backtick _, guarded_opening _⟩
  unfold escapeTemplate
  rw [escapeOpenings_eq_replace, Text.replace_replace (List.cons_ne_nil _ _) (by decide),
    escapeBackticks_eq_replace, Text.replace_replace (List.cons_ne_nil _ _) (by decide)]

/-- A text with a backslash before a backtick and before an opening keeps both of them. -/
example : escapeTemplate ['\\', '\x60', '\\', '$', '{', '$']
    = ['\\', '\\', '\x60', '\\', '\\', '$', '{', '$'] := by decide

end Json

end CallVicinity
