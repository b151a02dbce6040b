import CallVicinity.Json.Literal
import CallVicinity.Proofs.Graph.IdForms

/-!
# The words of a JSON text

A text is read from its front, so what matters of a written word is that it shows where it ends: if
two words with something behind them are the same text, then they are the same word and have the
same behind them. This file says so of every kind of word, in the form

> `write a ++ r = write b ++ s → a = b ∧ r = s`.

A string in quotes ends at the first quote without a backslash (`quote_append_inj`). A string
between backticks does as well, but only if it holds no backslash of its own (`block_append_inj`):
blocks leave backslashes as they are. Numbers and bare keys have no mark at their end; they go as
far as their characters go, so something else has to follow (`repr_append_inj`,
`keyText_append_inj`).
-/

namespace CallVicinity

/-! ## Words of one class of characters -/

/-- Where a text goes on, if it does, with a character that is not of a class. -/
def Text.Breaks (p : Char → Bool) (r : List Char) : Prop :=
  ∀ c ∈ r.head?, p c = false

theorem Text.breaks_cons {p : Char → Bool} {c : Char} {r : List Char} (h : p c = false) :
    Text.Breaks p (c :: r) := by
  intro d hd
  rw [← Option.some.inj hd]
  exact h

theorem Text.breaks_nil (p : Char → Bool) : Text.Breaks p [] := by
  intro d hd
  cases hd

theorem Text.Breaks.takeWhile_append {p : Char → Bool} {cs r : List Char} (hr : Text.Breaks p r)
    (hcs : ∀ c ∈ cs, p c = true) : (cs ++ r).takeWhile p = cs := by
  rw [List.takeWhile_append_of_pos hcs]
  cases r with
  | nil => simp
  | cons c r => rw [List.takeWhile_cons_of_neg (by simp [hr c rfl]), List.append_nil]

/-- A word of one class ends where its class does. -/
theorem Text.Breaks.append_inj {p : Char → Bool} {cs ds r s : List Char} (hr : Text.Breaks p r)
    (hs : Text.Breaks p s) (hcs : ∀ c ∈ cs, p c = true) (hds : ∀ c ∈ ds, p c = true)
    (h : cs ++ r = ds ++ s) : cs = ds ∧ r = s := by
  have hword : cs = ds := by
    rw [← hr.takeWhile_append hcs, h, hs.takeWhile_append hds]
  rw [hword] at h
  exact ⟨hword, List.append_cancel_left h⟩

namespace Json

/-! ## Numbers -/

theorem toList_repr_negSucc (n : Nat) :
    (Int.negSucc n).repr.toList = '-' :: (n + 1).repr.toList := by
  show ("-" ++ (n + 1).repr).toList = _
  simp [String.toList_append]

/-- The digits of a number begin with a digit. -/
theorem exists_repr_cons (n : Nat) : ∃ c cs, n.repr.toList = c :: cs ∧ c.isDigit = true := by
  cases h : n.repr.toList with
  | nil => exact absurd h (by simp [Nat.toList_repr])
  | cons c cs => exact ⟨c, cs, rfl, isDigit_of_mem_repr (h ▸ List.mem_cons_self)⟩

theorem natRepr_append_inj {m n : Nat} {r s : List Char} (hr : Text.Breaks Char.isDigit r)
    (hs : Text.Breaks Char.isDigit s) (h : m.repr.toList ++ r = n.repr.toList ++ s) :
    m = n ∧ r = s := by
  obtain ⟨hdigits, hrest⟩ :=
    hr.append_inj hs (fun c => isDigit_of_mem_repr) (fun c => isDigit_of_mem_repr) h
  exact ⟨Draft.repr_injective (String.toList_inj.mp hdigits), hrest⟩

/-- No number is both with and without a sign. -/
theorem repr_ne_negative (n : Nat) (r s : List Char) : n.repr.toList ++ r ≠ '-' :: s := by
  intro h
  obtain ⟨c, cs, hc, hdigit⟩ := exists_repr_cons n
  rw [hc] at h
  rw [(List.cons.inj h).1] at hdigit
  exact absurd hdigit (by decide)

/-- **A number ends where its digits do.** -/
theorem repr_append_inj {m n : Int} {r s : List Char} (hr : Text.Breaks Char.isDigit r)
    (hs : Text.Breaks Char.isDigit s) (h : m.repr.toList ++ r = n.repr.toList ++ s) :
    m = n ∧ r = s := by
  cases m with
  | ofNat m =>
    cases n with
    | ofNat n =>
      obtain ⟨hmn, hrs⟩ := natRepr_append_inj hr hs h
      exact ⟨by rw [hmn], hrs⟩
    | negSucc n =>
      rw [toList_repr_negSucc] at h
      exact absurd h (repr_ne_negative m r _)
  | negSucc m =>
    rw [toList_repr_negSucc] at h
    cases n with
    | ofNat n => exact absurd h.symm (repr_ne_negative n s _)
    | negSucc n =>
      rw [toList_repr_negSucc] at h
      obtain ⟨hmn, hrs⟩ := natRepr_append_inj hr hs (List.cons.inj h).2
      exact ⟨by rw [Nat.succ.inj hmn], hrs⟩

/-! ## Strings in quotes -/

/-- The value of a digit in base sixteen. -/
def hexValue (c : Char) : Nat :=
  if c.isDigit then c.toNat - 0x30 else c.toNat - 0x61 + 10

theorem hexValue_hexDigit : ∀ n < 16, hexValue (hexDigit n) = n := by decide

/-- The first character that a text in quotes stands for, and the rest of the text. -/
def unescape? : List Char → Option (Char × List Char)
  | '\\' :: 'n' :: r => some ('\n', r)
  | '\\' :: 'r' :: r => some ('\r', r)
  | '\\' :: 't' :: r => some ('\t', r)
  | '\\' :: 'b' :: r => some ('\x08', r)
  | '\\' :: 'f' :: r => some ('\x0c', r)
  | '\\' :: 'u' :: _ :: _ :: a :: b :: r => some (Char.ofNat (16 * hexValue a + hexValue b), r)
  | '\\' :: c :: r => some (c, r)
  | c :: r => some (c, r)
  | [] => none

theorem unescape?_plain {c : Char} (h : c ≠ '\\') (r : List Char) :
    unescape? (c :: r) = some (c, r) := by
  unfold unescape?
  split <;> simp_all

theorem unescape?_escapeChar (c : Char) (r : List Char) :
    unescape? (escapeChar c ++ r) = some (c, r) := by
  unfold escapeChar
  split
  next h => rw [h]; rfl
  next =>
  split
  next h => rw [h]; rfl
  next hbackslash =>
  split
  next h => rw [h]; rfl
  next =>
  split
  next h => rw [h]; rfl
  next =>
  split
  next h => rw [h]; rfl
  next =>
  split
  next h => rw [h]; rfl
  next =>
  split
  next h => rw [h]; rfl
  next =>
  split
  next hcontrol =>
    have hcode : 16 * hexValue (hexDigit (c.toNat / 16)) + hexValue (hexDigit (c.toNat % 16))
        = c.toNat := by
      rw [hexValue_hexDigit _ (by omega), hexValue_hexDigit _ (by omega)]
      omega
    show some (Char.ofNat _, r) = _
    rw [hcode, Char.ofNat_toNat]
  next => exact unescape?_plain hbackslash r

theorem escapeChar_append_inj {c d : Char} {r s : List Char}
    (h : escapeChar c ++ r = escapeChar d ++ s) : c = d ∧ r = s := by
  have hread := congrArg unescape? h
  rw [unescape?_escapeChar, unescape?_escapeChar] at hread
  exact Prod.mk.inj (Option.some.inj hread)

theorem escapeChar_ne_quote (c : Char) (r s : List Char) : escapeChar c ++ r ≠ '"' :: s := by
  intro h
  -- a quote stands for itself at the front of a text, and a quote in a string is escaped
  have hread := congrArg unescape? h
  rw [unescape?_escapeChar, unescape?_plain (by decide)] at hread
  rw [(Prod.mk.inj (Option.some.inj hread)).1] at h
  exact absurd (List.cons.inj h).1 (by decide)

theorem escaped_append_inj {cs ds r s : List Char}
    (h : cs.flatMap escapeChar ++ '"' :: r = ds.flatMap escapeChar ++ '"' :: s) :
    cs = ds ∧ r = s := by
  induction cs generalizing ds with
  | nil =>
    cases ds with
    | nil => exact ⟨rfl, (List.cons.inj h).2⟩
    | cons d ds =>
      rw [List.flatMap_cons, List.append_assoc] at h
      exact absurd h.symm (escapeChar_ne_quote d _ r)
  | cons c cs ih =>
    rw [List.flatMap_cons, List.append_assoc] at h
    cases ds with
    | nil => exact absurd h (escapeChar_ne_quote c _ s)
    | cons d ds =>
      rw [List.flatMap_cons, List.append_assoc] at h
      obtain ⟨hcd, hrest⟩ := escapeChar_append_inj h
      obtain ⟨hcs, hrs⟩ := ih hrest
      exact ⟨by rw [hcd, hcs], hrs⟩

/-- **A string in quotes shows where it ends.** -/
theorem quote_append_inj {a b : String} {r s : List Char} (h : quote a ++ r = quote b ++ s) :
    a = b ∧ r = s := by
  unfold quote at h
  rw [List.cons_append, List.cons_append, List.append_assoc, List.append_assoc] at h
  obtain ⟨hab, hrs⟩ := escaped_append_inj (List.cons.inj h).2
  exact ⟨String.toList_inj.mp hab, hrs⟩

/-! ## Strings between backticks -/

theorem escapeTemplate_backtick (cs : List Char) :
    escapeTemplate ('\x60' :: cs) = '\\' :: '\x60' :: escapeTemplate cs := by
  simp [escapeTemplate, escapeBackticks, escapeOpenings]

theorem escapeTemplate_opening (cs : List Char) :
    escapeTemplate ('$' :: '{' :: cs) = '\\' :: '$' :: '{' :: escapeTemplate cs := by
  simp [escapeTemplate, escapeBackticks, escapeOpenings]

/-- All but backticks and openings stand as they are. -/
theorem escapeTemplate_plain {c : Char} {cs : List Char} (hc : c ≠ '\x60')
    (hopen : ∀ rest, c = '$' → cs ≠ '{' :: rest) :
    escapeTemplate (c :: cs) = c :: escapeTemplate cs := by
  have hback : escapeBackticks (c :: cs) = c :: escapeBackticks cs := by
    simp [escapeBackticks, hc]
  unfold escapeTemplate
  rw [hback, escapeOpenings]
  intro rest hdollar hrest
  -- an opening after the backticks are escaped was one before
  cases cs with
  | nil => cases hrest
  | cons d ds =>
    by_cases hd : d = '\x60'
    · rw [hd] at hrest
      exact absurd (List.cons.inj hrest).1 (by decide)
    · simp only [escapeBackticks, List.flatMap_cons, if_neg hd] at hrest
      exact absurd (by rw [(List.cons.inj hrest).1]) (hopen ds hdollar)

/-- What a text after a backtick stands for, up to the backtick that ends it, and the rest of the
text. -/
def readBlock : List Char → List Char × List Char
  | [] => ([], [])
  | '\\' :: c :: r => (c :: (readBlock r).1, (readBlock r).2)
  | c :: r => if c = '\x60' then ([], r) else (c :: (readBlock r).1, (readBlock r).2)

theorem readBlock_escape (c : Char) (r : List Char) :
    readBlock ('\\' :: c :: r) = (c :: (readBlock r).1, (readBlock r).2) := rfl

theorem readBlock_plain {c : Char} {r : List Char} (hbackslash : c ≠ '\\')
    (hbacktick : c ≠ '\x60') :
    readBlock (c :: r) = (c :: (readBlock r).1, (readBlock r).2) := by
  rw [readBlock]
  · exact if_neg hbacktick
  · intro d ds h
    exact absurd h hbackslash

/-- A block of a string without backslashes is read back. -/
theorem readBlock_escapeTemplate (r : List Char) :
    ∀ cs : List Char, '\\' ∉ cs → readBlock (escapeTemplate cs ++ '\x60' :: r) = (cs, r)
  | [], _ => rfl
  | c :: cs, h => by
    have hc : c ≠ '\\' := fun he => h (he ▸ List.mem_cons_self)
    have ih := readBlock_escapeTemplate r cs fun hmem => h (List.mem_cons_of_mem c hmem)
    by_cases hback : c = '\x60'
    · rw [hback, escapeTemplate_backtick, List.cons_append, List.cons_append, readBlock_escape, ih]
    · by_cases hopen : ∃ rest, c = '$' ∧ cs = '{' :: rest
      · obtain ⟨rest, rfl, rfl⟩ := hopen
        -- the brace behind the dollar sign stands as it is
        have hbrace : escapeTemplate ('{' :: rest) = '{' :: escapeTemplate rest :=
          escapeTemplate_plain (by decide) fun _ he => absurd he (by decide)
        rw [escapeTemplate_opening, ← hbrace, List.cons_append, List.cons_append, readBlock_escape,
          ih]
      · rw [escapeTemplate_plain hback fun rest hd hcs => hopen ⟨rest, hd, hcs⟩, List.cons_append,
          readBlock_plain hc hback, ih]

/-- **A string between backticks shows where it ends**, if it holds no backslash. -/
theorem block_append_inj {a b : String} {r s : List Char} (ha : '\\' ∉ a.toList)
    (hb : '\\' ∉ b.toList) (h : block a ++ r = block b ++ s) : a = b ∧ r = s := by
  unfold block at h
  rw [List.cons_append, List.cons_append, List.append_assoc, List.append_assoc] at h
  have hread := congrArg readBlock (List.cons.inj h).2
  simp only [List.cons_append, List.nil_append, readBlock_escapeTemplate _ _ ha,
    readBlock_escapeTemplate _ _ hb] at hread
  obtain ⟨hab, hrs⟩ := Prod.mk.inj hread
  exact ⟨String.toList_inj.mp hab, hrs⟩

/-! ## Keys -/

theorem isIdentifierRest_of_start {c : Char} (h : isIdentifierStart c = true) :
    isIdentifierRest c = true := by
  unfold isIdentifierStart at h
  unfold isIdentifierRest Char.isAlphanum
  simp only [Bool.or_eq_true] at h ⊢
  rcases h with (hletter | hunderscore) | hdollar
  · exact Or.inl (Or.inl (Or.inl hletter))
  · exact Or.inl (Or.inr hunderscore)
  · exact Or.inr hdollar

/-- An identifier is a word of one class of characters and not empty. -/
theorem exists_of_isIdentifier {key : List Char} (h : isIdentifier key = true) :
    (∀ c ∈ key, isIdentifierRest c = true) ∧
      ∃ c cs, key = c :: cs ∧ isIdentifierStart c = true := by
  cases key with
  | nil => exact absurd h (by decide)
  | cons c cs =>
    obtain ⟨hstart, hrest⟩ := (Bool.and_eq_true _ _).mp h
    refine ⟨?_, c, cs, rfl, hstart⟩
    intro d hd
    rcases List.mem_cons.mp hd with rfl | hd
    · exact isIdentifierRest_of_start hstart
    · exact List.all_eq_true.mp hrest d hd

/-- A key opens with a quote or as an identifier does. -/
theorem exists_keyText_cons (key : String) :
    ∃ c cs, keyText key = c :: cs ∧ (c = '"' ∨ isIdentifierStart c = true) := by
  unfold keyText
  split
  next h =>
    obtain ⟨-, c, cs, hkey, hstart⟩ := exists_of_isIdentifier h
    exact ⟨c, cs, hkey, Or.inr hstart⟩
  next => exact ⟨'"', _, rfl, Or.inl rfl⟩

/-- No key is both bare and in quotes. -/
theorem bare_ne_quote {key other : String} (h : isIdentifier key.toList = true)
    (r s : List Char) : key.toList ++ r ≠ quote other ++ s := by
  intro heq
  obtain ⟨-, c, cs, hkey, hstart⟩ := exists_of_isIdentifier h
  rw [hkey] at heq
  rw [(List.cons.inj heq).1] at hstart
  exact absurd hstart (by decide)

/-- **A key shows where it ends** if a colon follows it. -/
theorem keyText_append_inj {k l : String} {r s : List Char}
    (h : keyText k ++ ':' :: r = keyText l ++ ':' :: s) : k = l ∧ r = s := by
  have hcolon : ∀ r, Text.Breaks isIdentifierRest (':' :: r) :=
    fun r => Text.breaks_cons (by decide)
  have hword : k = l ∧ ':' :: r = ':' :: s := by
    unfold keyText at h
    split at h
    next hk =>
      split at h
      next hl =>
        obtain ⟨hkl, hrs⟩ := (hcolon r).append_inj (hcolon s) (exists_of_isIdentifier hk).1
          (exists_of_isIdentifier hl).1 h
        exact ⟨String.toList_inj.mp hkl, hrs⟩
      next => exact absurd h (bare_ne_quote hk _ _)
    next =>
      split at h
      next hl => exact absurd h.symm (bare_ne_quote hl _ _)
      next => exact quote_append_inj h
  exact ⟨hword.1, (List.cons.inj hword.2).2⟩

end Json

end CallVicinity
