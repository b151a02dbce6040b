import Mathlib.Data.List.Infix
import CallVicinity.Text.Blank
import CallVicinity.Text.Case

/-!
# The lower-case form of a part of a text

Every character but one has its lower-case form whatever stands around it, so that the form of a
text is that of its parts one after the other. The exception is the capital sigma, which looks at
both sides for the end of a word (`Text.endsWord`). Cut out of a text, it can see less on either
side, and then it may get its other form:

> `Text.lower_infix`: the lower-case form of a part is a part of the lower-case form if every
> capital sigma ends a word in the part exactly if it does in the whole.
-/

namespace CallVicinity.Text

/-- What occurs in a text is what can be cut out of it. -/
theorem occursIn_iff {part cs : List Char} : occursIn part cs = true ↔ part <:+: cs := by
  induction cs with
  | nil => simp [occursIn]
  | cons c cs ih =>
    rw [occursIn, Bool.or_eq_true, List.isPrefixOf_iff_prefix, ih, List.infix_cons_iff]

/-! ## Characters between two texts -/

/-- The letter whose lower-case form depends on what is around it. -/
def capitalSigma : Char := 'Σ'

/-- Whether a letter between two texts ends a word. The first text is read backwards. -/
def endsWord (before after : List Char) : Bool := meetsCased before && !meetsCased after

/-- The lower-case form of a character between two texts, the first of which is read backwards. -/
def lowerBetween (before : List Char) (c : Char) (after : List Char) : List Char :=
  if c = capitalSigma then [if endsWord before after then 'ς' else 'σ'] else lowerChar c

theorem lowerFrom_cons (before : List Char) (c : Char) (cs : List Char) :
    lowerFrom before (c :: cs) = lowerBetween before c cs ++ lowerFrom (c :: before) cs := by
  have hsigma : c.toNat = 0x3A3 ↔ c = capitalSigma :=
    ⟨fun h => Char.toNat_inj.mp h, fun h => congrArg Char.toNat h⟩
  rw [lowerFrom, lowerBetween]
  simp only [hsigma]
  rfl

/-- The lower-case form of a part of a text, between what stands before it, read backwards, and what
stands behind it. -/
def lowerPart (before : List Char) (part after : List Char) : List Char :=
  match part with
  | [] => []
  | c :: cs => lowerBetween before c (cs ++ after) ++ lowerPart (c :: before) cs after

theorem lowerFrom_append (before part after : List Char) :
    lowerFrom before (part ++ after)
      = lowerPart before part after ++ lowerFrom (part.reverse ++ before) after := by
  induction part generalizing before with
  | nil => rfl
  | cons c cs ih =>
    rw [List.cons_append, lowerFrom_cons, lowerPart, ih, List.reverse_cons, List.append_assoc,
      List.append_assoc, List.singleton_append]

/-! ## Parts -/

/-- Every capital sigma of a part ends a word in the part exactly if it does in the whole text,
which has the given texts before and behind the part. -/
def KeepsSigmas (front part back : List Char) : Prop :=
  ∀ p q, part = p ++ capitalSigma :: q →
    endsWord p.reverse q = endsWord (p.reverse ++ front.reverse) (q ++ back)

/-- Where the sigmas keep their forms, so does the part. -/
theorem KeepsSigmas.lowerPart_eq {front part back : List Char} (h : KeepsSigmas front part back) :
    ∀ done rest, part = done ++ rest →
      lowerPart done.reverse rest [] = lowerPart (done.reverse ++ front.reverse) rest back := by
  intro done rest
  induction rest generalizing done with
  | nil => intro _; rfl
  | cons c cs ih =>
    intro hpart
    have hchar : lowerBetween done.reverse c (cs ++ [])
        = lowerBetween (done.reverse ++ front.reverse) c (cs ++ back) := by
      unfold lowerBetween
      by_cases hc : c = capitalSigma
      · rw [hc] at hpart
        rw [if_pos hc, if_pos hc, List.append_nil, h done cs hpart]
      · rw [if_neg hc, if_neg hc]
    have hrest := ih (done ++ [c]) (by rw [hpart, List.append_assoc, List.singleton_append])
    rw [List.reverse_append, List.reverse_singleton, List.singleton_append, List.cons_append]
      at hrest
    rw [lowerPart, lowerPart, hchar, hrest]

/-- **A part keeps its lower-case form** if its capital sigmas keep theirs. -/
theorem lower_infix {front part back : List Char} (h : KeepsSigmas front part back) :
    lower part <:+: lower (front ++ part ++ back) := by
  have hpart : lower part = lowerPart front.reverse part back := by
    have halone := lowerFrom_append [] part []
    rw [List.append_nil, lowerFrom, List.append_nil] at halone
    exact halone.trans (h.lowerPart_eq [] part rfl)
  refine ⟨lowerPart [] front (part ++ back), lowerFrom (part.reverse ++ front.reverse) back, ?_⟩
  rw [hpart, List.append_assoc, List.append_assoc, ← lowerFrom_append,
    ← List.append_nil front.reverse]
  exact (lowerFrom_append [] front (part ++ back)).symm

end CallVicinity.Text
