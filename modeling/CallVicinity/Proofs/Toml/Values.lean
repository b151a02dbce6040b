import CallVicinity.Proofs.Json.Words
import CallVicinity.Toml.Reader
import CallVicinity.Toml.Writer

/-!
# Written values are read back

A value that was written stands at the end of its line or in an array, so a line feed, a comma or a
closing bracket comes behind it (`Toml.Ends`). In front of those it is read back as it was, and the
reader stops right behind it (`Toml.Written`): truth values, counts of up to 63 bits
(`written_nat`), strings without control characters and single quotes (`written_string`), and arrays
of such strings (`written_array`).

Two things have to be kept apart from others. A count begins like a point in time and like a number
in another base, and is told from them by what comes behind its digits. And a string in quotes
begins like a string in three quotes, if it is empty.
-/

namespace CallVicinity.Toml

/-! ## What it means to be read back -/

/-- What may come behind a written value. -/
def Ends (rest : List Char) : Prop :=
  ∃ c r, rest = c :: r ∧ (c = '\n' ∨ c = ',' ∨ c = ']')

theorem ends_lineFeed (r : List Char) : Ends ('\n' :: r) := ⟨_, r, rfl, Or.inl rfl⟩

theorem ends_comma (r : List Char) : Ends (',' :: r) := ⟨_, r, rfl, Or.inr (Or.inl rfl)⟩

theorem ends_bracket (r : List Char) : Ends (']' :: r) := ⟨_, r, rfl, Or.inr (Or.inr rfl)⟩

/-- A text is read back as a value that has `depth` levels of arrays. It has no blank before it. -/
structure Written (depth : Nat) (text : List Char) (v : Toml) : Prop where
  opens : Text.Breaks isSpace text
  value?_append : ∀ fuel room rest, text.length ≤ fuel → depth ≤ room → Ends rest →
    value? (fuel + 1) room (text ++ rest) = some (v, rest)

theorem written_bool (b : Bool) : Written 0 (boolText b) (.boolean b) := by
  cases b with
  | false => exact ⟨Text.breaks_cons (by decide), fun _ _ _ _ _ _ => rfl⟩
  | true => exact ⟨Text.breaks_cons (by decide), fun _ _ _ _ _ _ => rfl⟩

/-! ## Strings -/

/-- A control character of the basic range. The wider ones are written as they are. -/
def isControl (c : Char) : Bool := c.toNat < 0x20 || c.toNat == 0x7F

/-- A string without control characters and without single quotes. -/
def IsPlain (s : String) : Prop := ∀ c ∈ s.toList, isControl c = false ∧ c ≠ '\''

instance (s : String) : Decidable (IsPlain s) := List.decidableBAll _ s.toList

theorem isCommentChar_of_isControl {c : Char} (h : isControl c = false) :
    isCommentChar c = true := by
  simp only [isControl, Bool.or_eq_false_iff, decide_eq_false_iff_not, beq_eq_false_iff_ne] at h
  simp only [isCommentChar, Bool.or_eq_true, Bool.and_eq_true, decide_eq_true_eq, bne_iff_ne]
  exact Or.inr ⟨by omega, h.2⟩

theorem needsEscape_of_isControl {c : Char} (h : isControl c = false) : needsEscape c = false := by
  simp only [isControl, Bool.or_eq_false_iff] at h
  simp [needsEscape, h]

theorem basicRest_append {cs : List Char} (h : ∀ c ∈ cs, isBasicChar c = true)
    (rest : List Char) : basicRest 0 (cs ++ '"' :: rest) = some (cs, rest) := by
  induction cs with
  | nil => rfl
  | cons c cs ih =>
    have hc := h c List.mem_cons_self
    have hne : c ≠ '"' ∧ c ≠ '\\' := by
      constructor <;> (rintro rfl; revert hc; decide)
    rw [List.cons_append, basicRest, if_neg hne.1, if_neg hne.2, if_pos hc,
      ih fun d hd => h d (List.mem_cons_of_mem _ hd)]
    rfl

theorem literalRest_append {cs : List Char} (h : ∀ c ∈ cs, isLiteralChar c = true)
    (rest : List Char) : literalRest (cs ++ '\'' :: rest) = some (cs, rest) := by
  induction cs with
  | nil => rfl
  | cons c cs ih =>
    have hc := h c List.mem_cons_self
    have hne : c ≠ '\'' := by rintro rfl; revert hc; decide
    rw [List.cons_append, literalRest, if_neg hne, if_pos hc,
      ih fun d hd => h d (List.mem_cons_of_mem _ hd)]
    rfl

/-- A string in double quotes is not taken for one in three of them. -/
theorem string?_basic {cs rest : List Char} (h : ∀ c ∈ cs, isBasicChar c = true)
    (hrest : Ends rest) : string? ('"' :: (cs ++ '"' :: rest)) = some (cs, rest) := by
  have hlong : ∀ r, '"' :: (cs ++ '"' :: rest) ≠ '"' :: '"' :: '"' :: r := by
    intro r he
    cases cs with
    | nil =>
      obtain ⟨c, r', rfl, hc⟩ := hrest
      obtain rfl : c = '"' := (List.cons.inj (List.cons.inj (List.cons.inj he).2).2).1
      exact absurd hc (by decide)
    | cons c cs =>
      obtain rfl : c = '"' := (List.cons.inj (List.cons.inj he).2).1
      exact absurd (h '"' List.mem_cons_self) (by decide)
  unfold string?
  split
  next r he => exact absurd he (hlong r)
  next r he => exact absurd (List.cons.inj he).1 (by decide)
  next => exact basicRest_append h rest

/-- A string in single quotes is not taken for one in three of them, if it is not empty. -/
theorem string?_literal {cs : List Char} (h : ∀ c ∈ cs, isLiteralChar c = true) (hne : cs ≠ [])
    (rest : List Char) : string? ('\'' :: (cs ++ '\'' :: rest)) = some (cs, rest) := by
  have hlong : ∀ r, '\'' :: (cs ++ '\'' :: rest) ≠ '\'' :: '\'' :: '\'' :: r := by
    intro r he
    obtain ⟨c, cs, rfl⟩ := List.exists_cons_of_ne_nil hne
    obtain rfl : c = '\'' := (List.cons.inj (List.cons.inj he).2).1
    exact absurd (h '\'' List.mem_cons_self) (by decide)
  unfold string?
  split
  next r he => exact absurd (List.cons.inj he).1 (by decide)
  next r he => exact absurd he (hlong r)
  next => exact literalRest_append h rest

theorem escapeIn_plain {c : Char} (h : isControl c = false) (hslash : c ≠ '\\') :
    escapeIn false c = [c] := by
  have hne : ∀ d, isControl d = true → c ≠ d := by
    rintro d hd rfl
    rw [h] at hd
    cases hd
  unfold escapeIn
  rw [if_neg (hne _ (by decide)), if_neg (hne _ (by decide)), if_neg (hne _ (by decide)),
    if_neg (hne _ (by decide)), if_neg (hne _ (by decide)), if_neg hslash,
    needsEscape_of_isControl h]
  rfl

theorem escapeFrom_plain {cs : List Char} (h : ∀ c ∈ cs, isControl c = false) (hquote : '"' ∉ cs)
    (hslash : '\\' ∉ cs) : escapeFrom false 0 cs = cs := by
  induction cs with
  | nil => rfl
  | cons c cs ih =>
    rw [List.mem_cons, not_or] at hquote hslash
    rw [escapeFrom, if_neg (Ne.symm hquote.1), escapeIn_plain (h c List.mem_cons_self)
      (Ne.symm hslash.1), ih (fun d hd => h d (List.mem_cons_of_mem _ hd)) hquote.2 hslash.2]
    rfl

/-- **A plain string stands in double quotes, or in single quotes** if it holds a double quote or a
backslash. -/
theorem stringText_plain {s : String} (h : IsPlain s) :
    stringText s =
      if '"' ∈ s.toList ∨ '\\' ∈ s.toList then '\'' :: (s.toList ++ ['\''])
      else '"' :: (s.toList ++ ['"']) := by
  have hcontrol : ∀ c ∈ s.toList, isControl c = false := fun c hc => (h c hc).1
  have hescapes : s.toList.any needsEscape = false :=
    List.any_eq_false.mpr fun c hc =>
      Bool.eq_false_iff.mp (needsEscape_of_isControl (hcontrol c hc))
  have hlines : '\n' ∉ s.toList := fun hmem => absurd (hcontrol _ hmem) (by decide)
  have hsingle : '\'' ∉ s.toList := fun hmem => (h _ hmem).2 rfl
  unfold stringText
  simp only [hescapes, List.contains_eq_mem, hlines, hsingle]
  by_cases hmarks : '"' ∈ s.toList ∨ '\\' ∈ s.toList
  · rw [if_pos hmarks, if_neg (by simp; tauto)]
    rfl
  · obtain ⟨hquote, hslash⟩ := not_or.mp hmarks
    rw [if_neg hmarks, if_pos (by simp [hquote, hslash]), escapeFrom_plain hcontrol hquote hslash]

/-- A written string begins with a quote. -/
theorem exists_stringText_cons {s : String} (h : IsPlain s) :
    ∃ q cs, stringText s = q :: cs ∧ (q = '"' ∨ q = '\'') := by
  rw [stringText_plain h]
  split
  next => exact ⟨_, _, rfl, Or.inr rfl⟩
  next => exact ⟨_, _, rfl, Or.inl rfl⟩

theorem written_string {s : String} (h : IsPlain s) : Written 0 (stringText s) (.string s) := by
  refine ⟨?_, fun fuel room rest _ _ hrest => ?_⟩
  · obtain ⟨q, cs, htext, hq⟩ := exists_stringText_cons h
    rw [htext]
    rcases hq with rfl | rfl <;> exact Text.breaks_cons (by decide)
  rw [stringText_plain h]
  split
  next hquote =>
    have hchars : ∀ c ∈ s.toList, isLiteralChar c = true := by
      intro c hc
      simp [isLiteralChar, isCommentChar_of_isControl (h c hc).1, (h c hc).2]
    have hne : s.toList ≠ [] := by
      intro hnil
      simp [hnil] at hquote
    show (string? ('\'' :: (s.toList ++ ['\''] ++ rest))).map _ = _
    rw [List.append_assoc, List.singleton_append, string?_literal hchars hne]
    exact congrArg (fun s => some (Toml.string s, rest)) String.ofList_toList
  next hquote =>
    obtain ⟨hquote, hslash⟩ := not_or.mp hquote
    have hchars : ∀ c ∈ s.toList, isBasicChar c = true := by
      intro c hc
      have hne : c ≠ '"' ∧ c ≠ '\\' :=
        ⟨fun he => hquote (he ▸ hc), fun he => hslash (he ▸ hc)⟩
      simp [isBasicChar, isCommentChar_of_isControl (h c hc).1, hne]
    show (string? ('"' :: (s.toList ++ ['"'] ++ rest))).map _ = _
    rw [List.append_assoc, List.singleton_append, string?_basic hchars hrest]
    exact congrArg (fun s => some (Toml.string s, rest)) String.ofList_toList

/-! ## Counts -/

section Counts

variable {ds rest : List Char} (hds : ∀ c ∈ ds, c.isDigit = true) (hrest : Ends rest)
include hds hrest

/-- Behind some of the digits come more of them, or what may come behind a value. -/
theorem digits_ne_cons {c : Char} (hc : c.isDigit = false) (hsigns : c ∉ ['\n', ',', ']'])
    (r : List Char) : ds ++ rest ≠ c :: r := by
  intro he
  cases ds with
  | nil =>
    obtain ⟨d, r', rfl, hd⟩ := hrest
    rw [← (List.cons.inj he).1] at hsigns
    exact hsigns (by simpa using hd)
  | cons d ds =>
    have hd := hds d List.mem_cons_self
    rw [(List.cons.inj he).1, hc] at hd
    cases hd

theorem after?_digits {c : Char} (hc : c.isDigit = false) (hsigns : c ∉ ['\n', ',', ']']) :
    after? c (ds ++ rest) = none := by
  cases h : ds ++ rest with
  | nil => rfl
  | cons d r =>
    rw [after?, if_neg]
    rintro rfl
    exact digits_ne_cons hds hrest hc hsigns r h

/-- A field of a point in time is some of the digits. -/
theorem exists_of_field? {width low high n : Nat} {after : List Char}
    (h : field? width low high (ds ++ rest) = some (n, after)) :
    ∃ ds', (∀ c ∈ ds', c.isDigit = true) ∧ after = ds' ++ rest := by
  unfold field? at h
  dsimp only at h
  split at h
  next hfield =>
    obtain ⟨hlength, hall⟩ := hfield
    split at h
    next =>
      obtain rfl : (ds ++ rest).drop width = after := (Prod.mk.inj (Option.some.inj h)).2
      by_cases hwidth : width ≤ ds.length
      · refine ⟨ds.drop width, fun c hc => hds c (List.mem_of_mem_drop hc), ?_⟩
        rw [List.drop_append_of_le_length hwidth]
      · -- what comes behind the digits would be in the field
        obtain ⟨c, r, rfl, hc⟩ := hrest
        have hmem : c ∈ (ds ++ c :: r).take width := by
          obtain ⟨k, hk⟩ : ∃ k, width - ds.length = k + 1 := ⟨width - ds.length - 1, by omega⟩
          rw [List.take_append, hk, List.take_succ_cons]
          simp
        have hdigit := List.all_eq_true.mp hall c hmem
        rcases hc with rfl | rfl | rfl <;> exact absurd hdigit (by decide)
    next => cases h
  next => cases h

/-- Digits alone are no point in time. -/
theorem moment?_digits : moment? (ds ++ rest) = none := by
  -- behind its first field a date has a dash and a time of day a colon
  have hfirst : ∀ {width low high : Nat} {r : Nat × List Char},
      field? width low high (ds ++ rest) = some r →
        after? '-' r.2 = none ∧ after? ':' r.2 = none := by
    rintro width low high ⟨n, after⟩ hfield
    obtain ⟨ds', hds', rfl⟩ := exists_of_field? hds hrest hfield
    exact ⟨after?_digits hds' hrest (by decide) (by decide),
      after?_digits hds' hrest (by decide) (by decide)⟩
  have hdate : date? (ds ++ rest) = none := by
    unfold date?
    cases hfield : field? 4 0 9999 (ds ++ rest) with
    | none => rfl
    | some r =>
      show (after? '-' r.2).bind _ = none
      rw [(hfirst hfield).1]
      rfl
  have htime : time? (ds ++ rest) = none := by
    unfold time?
    cases hfield : field? 2 0 23 (ds ++ rest) with
    | none => rfl
    | some r =>
      show (after? ':' r.2).bind _ = none
      rw [(hfirst hfield).2]
      rfl
  unfold moment?
  rw [hdate]
  exact htime

theorem digitRun_append : digitRun Char.isDigit (ds ++ rest) = (ds, rest) := by
  induction ds with
  | nil =>
    obtain ⟨c, r, rfl, hc⟩ := hrest
    rcases hc with rfl | rfl | rfl <;> cases r <;> rfl
  | cons d ds ih =>
    have hd := hds d List.mem_cons_self
    rw [List.cons_append, digitRun]
    · rw [if_pos hd, ih fun c hc => hds c (List.mem_cons_of_mem _ hc)]
    · rintro e r rfl -
      exact absurd hd (by decide)

/-- A whole number is all of its digits, if it does not begin with a zero. -/
theorem decimal?_digits (hne : ds ≠ []) (hzero : ds.head? = some '0' → ds = ['0']) :
    decimal? (ds ++ rest) = some (ds, rest) := by
  obtain ⟨d, ds, rfl⟩ := List.exists_cons_of_ne_nil hne
  have hlater : ∀ c ∈ ds, c.isDigit = true := fun c hc => hds c (List.mem_cons_of_mem _ hc)
  unfold decimal?
  split
  next cs he =>
    obtain ⟨rfl, rfl⟩ := List.cons.inj he
    rw [(List.cons.inj (hzero rfl)).2]
    rfl
  next =>
    rw [List.cons_append, digits?, if_pos (hds d List.mem_cons_self), digitRun_append hlater hrest]

/-- Digits that do not begin with a zero are read as a number, if it is not too large. -/
theorem number?_digits (hne : ds ≠ []) (hzero : ds.head? = some '0' → ds = ['0']) :
    number? (ds ++ rest) = (fit? (ofDigits 10 ds)).map (·, rest) := by
  have hdecimal := decimal?_digits hds hrest hne hzero
  have hplain : ∀ c : Char, c.isDigit = false → c ∉ ['\n', ',', ']'] → ∀ r, ds ++ rest ≠ c :: r :=
    fun c hc hsigns r => digits_ne_cons hds hrest hc hsigns r
  have hsign : sign (ds ++ rest) = (false, ds ++ rest) := by
    unfold sign
    split
    next cs he => exact absurd he (hplain _ (by decide) (by decide) cs)
    next cs he => exact absurd he (hplain _ (by decide) (by decide) cs)
    next => rfl
  have hbase : ∀ c : Char, c.isDigit = false → c ∉ ['\n', ',', ']'] →
      ∀ r, ds ++ rest ≠ '0' :: c :: r := by
    intro c hc hsigns r he
    obtain ⟨d, ds, rfl⟩ := List.exists_cons_of_ne_nil hne
    exact digits_ne_cons (fun e hmem => hds e (List.mem_cons_of_mem _ hmem)) hrest hc hsigns r
      (List.cons.inj he).2
  unfold number?
  split
  next r he => exact absurd he (hbase _ (by decide) (by decide) r)
  next r he => exact absurd he (hbase _ (by decide) (by decide) r)
  next r he => exact absurd he (hbase _ (by decide) (by decide) r)
  next =>
    rw [hsign]
    dsimp only
    split
    next r he => exact absurd he (hplain _ (by decide) (by decide) _)
    next r he => exact absurd he (hplain _ (by decide) (by decide) _)
    next =>
      rw [hdecimal, Option.bind_eq_bind, Option.bind_some, Option.map_eq_bind]
      dsimp only
      -- none of the signs behind the digits begins a fraction
      obtain ⟨c, r, rfl, hc⟩ := hrest
      rcases hc with rfl | rfl | rfl <;>
        exact congrArg (fun n => (fit? n).bind _) (if_neg Bool.false_ne_true)

theorem value?_digits (hne : ds ≠ []) (fuel room : Nat) :
    value? (fuel + 1) room (ds ++ rest) = number? (ds ++ rest) := by
  have hplain : ∀ c : Char, c.isDigit = false → c ∉ ['\n', ',', ']'] → ∀ r, ds ++ rest ≠ c :: r :=
    fun c hc hsigns r => digits_ne_cons hds hrest hc hsigns r
  rw [value?, moment?_digits hds hrest]
  · exact fun he => hne (List.append_eq_nil_iff.mp he).1
  all_goals exact fun r => hplain _ (by decide) (by decide) _

end Counts

theorem ofDigits_repr (n : Nat) : ofDigits 10 n.repr.toList = n := by
  have hdigit : ∀ d : Char, d.isDigit = true → (hexValue? d).getD 0 = d.toNat - '0'.toNat := by
    intro d hd
    rw [hexValue?, if_pos hd]
    rfl
  rw [ofDigits, Nat.toList_repr]
  conv => rhs; rw [← Nat.ofDigitChars_ten_toDigits (n := n), Nat.ofDigitChars_eq_foldl]
  refine List.foldl_ext _ _ _ fun m d hd => ?_
  rw [hdigit d (Nat.isDigit_of_mem_toDigits (by decide) (by decide) hd)]

/-- Only zero begins with a zero. -/
theorem head?_toDigits {n : Nat} (hn : n ≠ 0) : (Nat.toDigits 10 n).head? ≠ some '0' := by
  induction n using Nat.strong_induction_on with
  | _ n ih =>
    rw [Nat.toDigits_eq_if (by decide)]
    split
    next hlt =>
      have hdigit : ∀ m < 10, m ≠ 0 → m.digitChar ≠ '0' := by decide
      exact fun h => hdigit n hlt hn (Option.some.inj h)
    next hge =>
      rw [List.head?_append_of_ne_nil _ Nat.toDigits_ne_nil]
      exact ih (n / 10) (by omega) (by omega)

theorem repr_of_head? {n : Nat} (h : n.repr.toList.head? = some '0') :
    n.repr.toList = ['0'] := by
  by_cases hn : n = 0
  · rw [hn]
    rfl
  · rw [Nat.toList_repr] at h
    exact absurd h (head?_toDigits hn)

theorem written_nat {n : Nat} (h : n < 0x8000000000000000) :
    Written 0 n.repr.toList (.integer n) := by
  have hds : ∀ c ∈ n.repr.toList, c.isDigit = true := fun c => isDigit_of_mem_repr
  have hne : n.repr.toList ≠ [] := by simp [Nat.toList_repr]
  refine ⟨fun c hc => ?_, fun fuel room rest _ _ hrest => ?_⟩
  · have hdigit := hds c (List.mem_of_mem_head? hc)
    have hspace : c ≠ ' ' ∧ c ≠ '\t' := by constructor <;> (rintro rfl; revert hdigit; decide)
    simp [isSpace, hspace]
  have hnumber := number?_digits hds hrest hne repr_of_head?
  have hfit : fit? n = some (.integer n) := if_pos ⟨by omega, by omega⟩
  rw [ofDigits_repr, hfit, Option.map_some] at hnumber
  rw [value?_digits hds hrest hne, hnumber]

/-! ## Arrays -/

/-- A string behind a gap is the next item. -/
theorem items?_string {s : String} (h : IsPlain s) {gap rest : List Char}
    (hgap : ∀ q r, q = '"' ∨ q = '\'' → skipGap false (gap ++ q :: r) = q :: r)
    (hrest : Ends rest) {fuel : Nat} (hfuel : (stringText s).length < fuel) (room : Nat) :
    items? (fuel + 1) room (gap ++ (stringText s ++ rest))
      = match skipGap false rest with
        | ',' :: more => (items? fuel room more).map fun r => (.string s :: r.1, r.2)
        | ']' :: after => some ([.string s], after)
        | _ => none := by
  obtain ⟨fuel, rfl⟩ : ∃ k, fuel = k + 1 := ⟨fuel - 1, by omega⟩
  have hvalue := (written_string h).value?_append fuel room rest (by omega) (Nat.zero_le _) hrest
  obtain ⟨q, cs, htext, hq⟩ := exists_stringText_cons h
  rw [htext, List.cons_append] at hvalue ⊢
  rw [items?, hgap q _ hq]
  split
  next after he =>
    obtain rfl : q = ']' := (List.cons.inj he).1
    exact absurd hq (by decide)
  next =>
    rw [hvalue]
    show (match skipGap false rest with | ',' :: more => _ | ']' :: after => _ | _ => _) = _
    split
    next more _ => cases items? (fuel + 1) room more <;> rfl
    next => rfl
    next => rfl

/-- Items with a line for each, up to the bracket behind them. -/
theorem items?_lines {ss : List String} (h : ∀ s ∈ ss, IsPlain s) (room : Nat) (rest : List Char) :
    ∀ fuel, (ss.flatMap fun s => "    ".toList ++ stringText s ++ [',', '\n']).length < fuel →
      items? fuel room ('\n' ::
          ((ss.flatMap fun s => "    ".toList ++ stringText s ++ [',', '\n']) ++ ']' :: rest))
        = some (ss.map .string, rest) := by
  induction ss with
  | nil =>
    intro fuel hfuel
    obtain ⟨fuel, rfl⟩ : ∃ k, fuel = k + 1 := ⟨fuel - 1, by simp at hfuel; omega⟩
    rfl
  | cons s ss ih =>
    intro fuel hfuel
    rw [List.flatMap_cons] at hfuel ⊢
    simp only [List.length_append, List.length_cons, List.length_nil] at hfuel
    obtain ⟨fuel, rfl⟩ : ∃ k, fuel = k + 1 := ⟨fuel - 1, by omega⟩
    have hgap : ∀ q r, q = '"' ∨ q = '\'' →
        skipGap false ("\n    ".toList ++ q :: r) = q :: r := by
      rintro q r (rfl | rfl) <;> rfl
    have hlong : (stringText s).length < fuel := by omega
    have hstep := items?_string (h s List.mem_cons_self) hgap
      (ends_comma ('\n' :: ((ss.flatMap fun s => "    ".toList ++ stringText s ++ [',', '\n'])
        ++ ']' :: rest))) hlong room
    have hlater := ih (fun s' hs' => h s' (List.mem_cons_of_mem _ hs')) fuel (by omega)
    simp only [List.append_assoc] at hstep hlater ⊢
    refine hstep.trans ?_
    show Option.map _ (items? fuel room _) = _
    rw [hlater]
    rfl

theorem written_array {ss : List String} (h : ∀ s ∈ ss, IsPlain s) :
    Written 1 (arrayText ss) (.array (ss.map .string)) := by
  refine ⟨?_, fun fuel room rest hfuel hroom _ => ?_⟩
  · match ss with
    | [] | [_] | _ :: _ :: _ => exact Text.breaks_cons (by decide)
  obtain ⟨room, rfl⟩ : ∃ k, room = k + 1 := ⟨room - 1, by omega⟩
  have hitems : ∀ (cs : List Char) (vs : List Toml),
      items? fuel room (cs ++ ']' :: rest) = some (vs, rest) →
        value? (fuel + 1) (room + 1) ('[' :: (cs ++ [']']) ++ rest) = some (.array vs, rest) := by
    intro cs vs hcs
    show (items? fuel room (cs ++ [']'] ++ rest)).map _ = _
    rw [List.append_assoc, List.singleton_append, hcs]
    rfl
  match ss, h, hfuel with
  | [], _, hfuel =>
    obtain ⟨fuel, rfl⟩ : ∃ k, fuel = k + 1 := ⟨fuel - 1, by simp [arrayText] at hfuel; omega⟩
    rfl
  | [s], h, hfuel =>
    simp only [arrayText, List.length_cons, List.length_append, List.length_nil] at hfuel
    obtain ⟨fuel, rfl⟩ : ∃ k, fuel = k + 1 := ⟨fuel - 1, by omega⟩
    refine hitems _ _ ?_
    have hgap : ∀ q r, q = '"' ∨ q = '\'' → skipGap false ([] ++ q :: r) = q :: r := by
      rintro q r (rfl | rfl) <;> rfl
    exact items?_string (h s List.mem_cons_self) hgap (ends_bracket rest) (by omega) room
  | s :: s' :: ss, h, hfuel =>
    simp only [arrayText, List.length_cons, List.length_append] at hfuel
    refine hitems ('\n' :: _) _ ?_
    exact items?_lines h room rest fuel (by omega)

end CallVicinity.Toml
