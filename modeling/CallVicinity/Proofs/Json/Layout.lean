import CallVicinity.Proofs.Json.Words

/-!
# Values can be read off their texts

JSON and exported literals lay a value out in the same way and differ in how they write keys and
strings (`Style`). So both are one layout (`layoutAt`), with a style as its parameter
(`textAt_eq_layoutAt`, `literalAt_eq_layoutAt`), and that a value can be read off its text is proved
once, for every style whose keys and strings can be read (`Style.Readable`):

> `Style.Readable.layoutAt_append_inj`: if two values with something behind them are the same text,
> then they are the same value and have the same behind them.

The first character of a text tells the constructor of the value (`Shape.ofOpening?`), and never
closes a bracket, which keeps an empty list apart from others. After an item there is a comma, or
the break and the bracket that end the list, and never a digit, which keeps numbers apart. The proof
follows the value; lists are compared item by item.

Only strings directly under the key for blocks need a condition (`Json.sources`), and only in the
literal: there they must not hold backslashes.

> `Json.exported_inj`: two values without backslashes in their sources are equal if their literals
> are.
-/

namespace CallVicinity.Json

/-! ## Styles -/

/-- How keys and strings are written; with `raw`, the string stands directly under the key for
blocks. -/
structure Style where
  key : String → List Char
  string : (raw : Bool) → String → List Char

namespace Style

/-- All in quotes. -/
def quoted : Style := ⟨quote, fun _ => quote⟩

/-- Identifiers are bare, and raw strings are blocks. -/
def bare : Style := ⟨keyText, fun raw s => if raw then block s else quote s⟩

end Style

mutual

/-- The text of a value at a depth in a style. -/
def layoutAt (w : Style) (pretty raw : Bool) (depth : Nat) : Json → List Char
  | .null => "null".toList
  | .bool true => "true".toList
  | .bool false => "false".toList
  | .int n => n.repr.toList
  | .str s => w.string raw s
  | .arr items =>
    if items.isEmpty then ['[', ']']
    else '[' :: layoutItems w pretty (depth + 1) items ++ lineBreak pretty depth ++ [']']
  | .obj fields =>
    if fields.isEmpty then ['{', '}']
    else '{' :: layoutFields w pretty (depth + 1) fields ++ lineBreak pretty depth ++ ['}']

/-- The items of a list at a depth in a style. -/
def layoutItems (w : Style) (pretty : Bool) (depth : Nat) : List Json → List Char
  | [] => []
  | v :: vs =>
    lineBreak pretty depth ++ layoutAt w pretty false depth v ++
      (if vs.isEmpty then [] else ',' :: layoutItems w pretty depth vs)

/-- The fields of an object at a depth in a style. -/
def layoutFields (w : Style) (pretty : Bool) (depth : Nat) : List (String × Json) → List Char
  | [] => []
  | (k, v) :: fs =>
    lineBreak pretty depth ++ w.key k ++ colon pretty ++
      layoutAt w pretty (k == blockKey) depth v ++
      (if fs.isEmpty then [] else ',' :: layoutFields w pretty depth fs)

end

/-- What stands between brackets, which have a break before the closing one if there is anything. -/
def enclosed {α : Type} (opening closing : Char) (ending : List Char) (body : List α → List Char)
    (xs : List α) : List Char :=
  if xs.isEmpty then [opening, closing] else opening :: body xs ++ ending ++ [closing]

theorem layoutAt_arr (w : Style) (pretty raw : Bool) (depth : Nat) (items : List Json) :
    layoutAt w pretty raw depth (.arr items)
      = enclosed '[' ']' (lineBreak pretty depth) (layoutItems w pretty (depth + 1)) items := rfl

theorem layoutAt_obj (w : Style) (pretty raw : Bool) (depth : Nat)
    (fields : List (String × Json)) :
    layoutAt w pretty raw depth (.obj fields)
      = enclosed '{' '}' (lineBreak pretty depth) (layoutFields w pretty (depth + 1)) fields := rfl

section Enclosed

variable {α : Type} {opening closing : Char} {ending : List Char} {body : List α → List Char}

theorem exists_enclosed_cons (xs : List α) :
    ∃ cs, enclosed opening closing ending body xs = opening :: cs := by
  unfold enclosed
  split
  next => exact ⟨_, rfl⟩
  next => exact ⟨_, rfl⟩

theorem enclosed_cons_append (x : α) (xs : List α) (r : List Char) :
    enclosed opening closing ending body (x :: xs) ++ r
      = opening :: (body (x :: xs) ++ (ending ++ closing :: r)) := by
  simp [enclosed]

/-- Two lists with the same text are both empty, or both have something in them, if nothing that
stands in one begins with the closing bracket. -/
theorem enclosed_cases
    (hbody : ∀ x xs r s, body (x :: xs) ++ (ending ++ closing :: r) ≠ closing :: s)
    {xs xs' : List α} {r s : List Char}
    (h : enclosed opening closing ending body xs ++ r
      = enclosed opening closing ending body xs' ++ s) :
    (xs = [] ∧ xs' = [] ∧ r = s) ∨ xs ≠ [] ∧ xs' ≠ [] ∧
      body xs ++ (ending ++ closing :: r) = body xs' ++ (ending ++ closing :: s) := by
  cases xs with
  | nil =>
    cases xs' with
    | nil => exact Or.inl ⟨rfl, rfl, List.append_cancel_left h⟩
    | cons x' xs' =>
      rw [enclosed_cons_append] at h
      exact absurd (List.cons.inj h).2.symm (hbody x' xs' s r)
  | cons x xs =>
    rw [enclosed_cons_append] at h
    cases xs' with
    | nil => exact absurd (List.cons.inj h).2 (hbody x xs r s)
    | cons x' xs' =>
      rw [enclosed_cons_append] at h
      exact Or.inr ⟨List.cons_ne_nil _ _, List.cons_ne_nil _ _, (List.cons.inj h).2⟩

end Enclosed

mutual

/-- The text of a value is its layout with all in quotes. -/
theorem textAt_eq_layoutAt (pretty raw : Bool) :
    ∀ (v : Json) (depth : Nat), textAt pretty depth v = layoutAt .quoted pretty raw depth v
  | .null, _ => rfl
  | .bool true, _ => rfl
  | .bool false, _ => rfl
  | .int _, _ => rfl
  | .str _, _ => rfl
  | .arr items, depth => by
    rw [layoutAt_arr, enclosed, ← itemsText_eq_layoutItems pretty items (depth + 1)]
    rfl
  | .obj fields, depth => by
    rw [layoutAt_obj, enclosed, ← fieldsText_eq_layoutFields pretty fields (depth + 1)]
    rfl

theorem itemsText_eq_layoutItems (pretty : Bool) :
    ∀ (vs : List Json) (depth : Nat),
      itemsText pretty depth vs = layoutItems .quoted pretty depth vs
  | [], _ => rfl
  | v :: vs, depth => by
    rw [itemsText, layoutItems, textAt_eq_layoutAt pretty false v depth,
      itemsText_eq_layoutItems pretty vs depth]

theorem fieldsText_eq_layoutFields (pretty : Bool) :
    ∀ (fs : List (String × Json)) (depth : Nat),
      fieldsText pretty depth fs = layoutFields .quoted pretty depth fs
  | [], _ => rfl
  | (k, v) :: fs, depth => by
    rw [fieldsText, layoutFields, textAt_eq_layoutAt pretty (k == blockKey) v depth,
      fieldsText_eq_layoutFields pretty fs depth]
    rfl

end

mutual

/-- The literal of a value is its layout with what can be bare. -/
theorem literalAt_eq_layoutAt (pretty : Bool) :
    ∀ (v : Json) (raw : Bool) (depth : Nat),
      literalAt pretty raw depth v = layoutAt .bare pretty raw depth v
  | .null, _, _ => rfl
  | .bool true, _, _ => rfl
  | .bool false, _, _ => rfl
  | .int _, _, _ => rfl
  | .str _, _, _ => rfl
  | .arr items, _, depth => by
    rw [layoutAt_arr, enclosed, ← itemsLiteral_eq_layoutItems pretty items (depth + 1)]
    rfl
  | .obj fields, _, depth => by
    rw [layoutAt_obj, enclosed, ← fieldsLiteral_eq_layoutFields pretty fields (depth + 1)]
    rfl

theorem itemsLiteral_eq_layoutItems (pretty : Bool) :
    ∀ (vs : List Json) (depth : Nat),
      itemsLiteral pretty depth vs = layoutItems .bare pretty depth vs
  | [], _ => rfl
  | v :: vs, depth => by
    rw [itemsLiteral, layoutItems, literalAt_eq_layoutAt pretty v false depth,
      itemsLiteral_eq_layoutItems pretty vs depth]

theorem fieldsLiteral_eq_layoutFields (pretty : Bool) :
    ∀ (fs : List (String × Json)) (depth : Nat),
      fieldsLiteral pretty depth fs = layoutFields .bare pretty depth fs
  | [], _ => rfl
  | (k, v) :: fs, depth => by
    rw [fieldsLiteral, layoutFields, literalAt_eq_layoutAt pretty v (k == blockKey) depth,
      fieldsLiteral_eq_layoutFields pretty fs depth]
    rfl

end

/-! ## Sources -/

/-- The string that a value is. -/
def ownString : Json → List String
  | .str s => [s]
  | _ => []

mutual

/-- The strings that stand in a value directly under the key for blocks. -/
def sources : Json → List String
  | .arr items => sourcesOfItems items
  | .obj fields => sourcesOfFields fields
  | _ => []

/-- The sources in the items of a list. -/
def sourcesOfItems : List Json → List String
  | [] => []
  | v :: vs => v.sources ++ sourcesOfItems vs

/-- The sources in the fields of an object. -/
def sourcesOfFields : List (String × Json) → List String
  | [] => []
  | (k, v) :: fs => (if k = blockKey then v.ownString else []) ++ v.sources ++ sourcesOfFields fs

end

/-! ## Reading -/

/-- A style whose keys and strings show where they end. Of raw strings this is asked for those with
a property only. -/
structure Style.Readable (w : Style) (ok : String → Prop) : Prop where
  key_append_inj : ∀ {k l : String} {r s : List Char},
    w.key k ++ ':' :: r = w.key l ++ ':' :: s → k = l ∧ r = s
  key_opening : ∀ (k : String) (r s : List Char), w.key k ++ r ≠ '}' :: s
  string_append_inj : ∀ {raw : Bool} {a b : String} {r s : List Char},
    (raw = true → ok a ∧ ok b) → w.string raw a ++ r = w.string raw b ++ s → a = b ∧ r = s
  string_opening : ∀ (raw : Bool) (a : String),
    ∃ c cs, w.string raw a = c :: cs ∧ (c = '"' ∨ c = '\x60')

theorem Style.quoted_readable : Style.quoted.Readable fun _ => True where
  key_append_inj h := by
    obtain ⟨hkl, hrs⟩ := quote_append_inj h
    exact ⟨hkl, (List.cons.inj hrs).2⟩
  key_opening k r s h := absurd (List.cons.inj h).1 (by decide)
  string_append_inj _ h := quote_append_inj h
  string_opening raw a := ⟨'"', _, rfl, Or.inl rfl⟩

theorem Style.bare_readable : Style.bare.Readable fun a => '\\' ∉ a.toList where
  key_append_inj h := keyText_append_inj h
  key_opening k r s h := by
    obtain ⟨c, cs, hkey, hc⟩ := exists_keyText_cons k
    change keyText k ++ r = '}' :: s at h
    rw [hkey] at h
    rw [(List.cons.inj h).1] at hc
    exact absurd hc (by decide)
  string_append_inj {raw} _ _ _ _ hok h := by
    cases raw with
    | true => exact block_append_inj (hok rfl).1 (hok rfl).2 h
    | false => exact quote_append_inj h
  string_opening raw a := by
    cases raw with
    | true => exact ⟨'\x60', _, rfl, Or.inr rfl⟩
    | false => exact ⟨'"', _, rfl, Or.inl rfl⟩

/-- What the first character tells of a value. -/
inductive Shape where
  | null
  | bool (b : Bool)
  | int
  | str
  | arr
  | obj
deriving DecidableEq

/-- The shape of a value. -/
def shape : Json → Shape
  | .null => .null
  | .bool b => .bool b
  | .int _ => .int
  | .str _ => .str
  | .arr _ => .arr
  | .obj _ => .obj

theorem eq_null_of_shape : ∀ {v : Json}, v.shape = .null → v = .null
  | .null, _ => rfl

theorem eq_bool_of_shape {b : Bool} : ∀ {v : Json}, v.shape = .bool b → v = .bool b
  | .bool _, h => by rw [Shape.bool.inj h]

theorem exists_int_of_shape : ∀ {v : Json}, v.shape = .int → ∃ n, v = .int n
  | .int n, _ => ⟨n, rfl⟩

theorem exists_str_of_shape : ∀ {v : Json}, v.shape = .str → ∃ s, v = .str s
  | .str s, _ => ⟨s, rfl⟩

theorem exists_arr_of_shape : ∀ {v : Json}, v.shape = .arr → ∃ items, v = .arr items
  | .arr items, _ => ⟨items, rfl⟩

theorem exists_obj_of_shape : ∀ {v : Json}, v.shape = .obj → ∃ fields, v = .obj fields
  | .obj fields, _ => ⟨fields, rfl⟩

/-- The shape of the values whose texts begin with a character. -/
def Shape.ofOpening? (c : Char) : Option Shape :=
  if c = 'n' then some .null
  else if c = 't' then some (.bool true)
  else if c = 'f' then some (.bool false)
  else if c = '-' ∨ c.isDigit = true then some .int
  else if c = '"' ∨ c = '\x60' then some .str
  else if c = '[' then some .arr
  else if c = '{' then some .obj
  else none

theorem Shape.ofOpening?_digit {c : Char} (h : c.isDigit = true) : ofOpening? c = some .int := by
  have hn : c ≠ 'n' := fun he => absurd h (by rw [he]; decide)
  have ht : c ≠ 't' := fun he => absurd h (by rw [he]; decide)
  have hf : c ≠ 'f' := fun he => absurd h (by rw [he]; decide)
  rw [ofOpening?, if_neg hn, if_neg ht, if_neg hf, if_pos (Or.inr h)]

section Reading

variable {w : Style} {ok : String → Prop} (hw : w.Readable ok) {pretty : Bool}
include hw

/-- The text of a value begins with a character that tells its shape. -/
theorem Style.Readable.exists_opening (pretty raw : Bool) (depth : Nat) (v : Json) :
    ∃ c cs, layoutAt w pretty raw depth v = c :: cs ∧ Shape.ofOpening? c = some v.shape := by
  cases v with
  | null => exact ⟨'n', _, rfl, rfl⟩
  | bool b => cases b with
    | true => exact ⟨'t', _, rfl, rfl⟩
    | false => exact ⟨'f', _, rfl, rfl⟩
  | int n =>
    cases n with
    | ofNat n =>
      obtain ⟨c, cs, hc, hdigit⟩ := exists_repr_cons n
      exact ⟨c, cs, hc, Shape.ofOpening?_digit hdigit⟩
    | negSucc n => exact ⟨'-', _, toList_repr_negSucc n, rfl⟩
  | str s =>
    obtain ⟨c, cs, hc, hquote⟩ := hw.string_opening raw s
    refine ⟨c, cs, hc, ?_⟩
    rcases hquote with rfl | rfl <;> rfl
  | arr items =>
    obtain ⟨cs, hcs⟩ := exists_enclosed_cons items
    exact ⟨'[', cs, hcs, rfl⟩
  | obj fields =>
    obtain ⟨cs, hcs⟩ := exists_enclosed_cons fields
    exact ⟨'{', cs, hcs, rfl⟩

theorem Style.Readable.shape_eq {raw : Bool} {depth : Nat} {v v' : Json} {r s : List Char}
    (h : layoutAt w pretty raw depth v ++ r = layoutAt w pretty raw depth v' ++ s) :
    v.shape = v'.shape := by
  obtain ⟨c, cs, hc, hv⟩ := hw.exists_opening pretty raw depth v
  obtain ⟨c', cs', hc', hv'⟩ := hw.exists_opening pretty raw depth v'
  rw [hc, hc'] at h
  rw [(List.cons.inj h).1, hv'] at hv
  exact (Option.some.inj hv).symm

end Reading

/-! ### What follows an item -/

/-- What follows an item of a list or an object: a comma and the others, or the break and the
bracket at the end. -/
def afterItem (pretty : Bool) (depth : Nat) (bracket : Char) (last : Bool) (others r : List Char) :
    List Char :=
  (if last then [] else ',' :: others) ++ (lineBreak pretty depth ++ bracket :: r)

section After

variable {pretty : Bool} {depth : Nat} {bracket : Char}

/-- An end begins with a line feed or its bracket. -/
theorem ending_cases (pretty : Bool) (depth : Nat) (bracket : Char) (r : List Char) :
    ∃ c cs, lineBreak pretty depth ++ bracket :: r = c :: cs ∧ (c = '\n' ∨ c = bracket) := by
  cases pretty with
  | true => exact ⟨'\n', _, rfl, Or.inl rfl⟩
  | false => exact ⟨bracket, _, rfl, Or.inr rfl⟩

theorem afterItem_breaks (hdigit : bracket.isDigit = false) (last : Bool) (others r : List Char) :
    Text.Breaks Char.isDigit (afterItem pretty depth bracket last others r) := by
  cases last with
  | true =>
    obtain ⟨c, cs, hc, hcases⟩ := ending_cases pretty depth bracket r
    show Text.Breaks Char.isDigit (lineBreak pretty depth ++ bracket :: r)
    rw [hc]
    refine Text.breaks_cons ?_
    rcases hcases with rfl | rfl
    · decide
    · exact hdigit
  | false => exact Text.breaks_cons (by decide)

/-- A comma is no end, so both lists end here or none of them does. -/
theorem afterItem_inj (hcomma : bracket ≠ ',') {last last' : Bool} {others others' r s : List Char}
    (h : afterItem pretty depth bracket last others r
      = afterItem pretty depth bracket last' others' s) :
    last = last' ∧ if last then r = s
      else others ++ (lineBreak pretty depth ++ bracket :: r)
        = others' ++ (lineBreak pretty depth ++ bracket :: s) := by
  have hends : ∀ t x : List Char, lineBreak pretty depth ++ bracket :: t ≠ ',' :: x := by
    intro t x heq
    obtain ⟨c, cs, hc, hcases⟩ := ending_cases pretty depth bracket t
    rw [hc] at heq
    rw [(List.cons.inj heq).1] at hcases
    rcases hcases with hfeed | hbracket
    · exact absurd hfeed (by decide)
    · exact hcomma hbracket.symm
  cases last with
  | true =>
    cases last' with
    | true => exact ⟨rfl, (List.cons.inj (List.append_cancel_left h)).2⟩
    | false => exact absurd h (hends r _)
  | false =>
    cases last' with
    | true => exact absurd h.symm (hends s _)
    | false => exact ⟨rfl, (List.cons.inj h).2⟩

end After

/-! ### Values, lists and objects -/

theorem layoutItems_append (w : Style) (pretty : Bool) (depth : Nat) (v : Json) (vs : List Json)
    (r : List Char) :
    layoutItems w pretty (depth + 1) (v :: vs) ++ (lineBreak pretty depth ++ ']' :: r)
      = lineBreak pretty (depth + 1) ++ (layoutAt w pretty false (depth + 1) v ++
          afterItem pretty depth ']' vs.isEmpty (layoutItems w pretty (depth + 1) vs) r) := by
  rw [layoutItems, afterItem]
  simp only [List.append_assoc]

/-- What stands between a colon and a value. -/
def afterColon (pretty : Bool) : List Char := if pretty then [' '] else []

theorem layoutFields_append (w : Style) (pretty : Bool) (depth : Nat) (k : String) (v : Json)
    (fs : List (String × Json)) (r : List Char) :
    layoutFields w pretty (depth + 1) ((k, v) :: fs) ++ (lineBreak pretty depth ++ '}' :: r)
      = lineBreak pretty (depth + 1) ++ (w.key k ++ ':' :: (afterColon pretty ++
          (layoutAt w pretty (k == blockKey) (depth + 1) v ++
            afterItem pretty depth '}' fs.isEmpty (layoutFields w pretty (depth + 1) fs) r))) := by
  have hcolon : colon pretty = ':' :: afterColon pretty := by cases pretty <;> rfl
  rw [layoutFields, afterItem, hcolon]
  simp only [List.append_assoc, List.cons_append]

/-- The strings of a value that a style has to write between backticks have a property. -/
structure Admitted (ok : String → Prop) (raw : Bool) (v : Json) : Prop where
  sources : ∀ a ∈ v.sources, ok a
  ownString : raw = true → ∀ a ∈ v.ownString, ok a

theorem Admitted.ofSources {ok : String → Prop} {v : Json} (h : ∀ a ∈ v.sources, ok a) :
    Admitted ok false v :=
  ⟨h, fun hraw => absurd hraw Bool.false_ne_true⟩

theorem admitted_of_field {ok : String → Prop} {k : String} {v : Json}
    {fs : List (String × Json)} (h : ∀ a ∈ sourcesOfFields ((k, v) :: fs), ok a) :
    Admitted ok (k == blockKey) v ∧ ∀ a ∈ sourcesOfFields fs, ok a := by
  obtain ⟨hfield, hfs⟩ := List.forall_mem_append.mp h
  obtain ⟨hown, hv⟩ := List.forall_mem_append.mp hfield
  refine ⟨⟨hv, fun hk => ?_⟩, hfs⟩
  rw [if_pos (eq_of_beq hk)] at hown
  exact hown

section Reading

variable {w : Style} {ok : String → Prop} (hw : w.Readable ok)
include hw

/-- Behind an opening bracket, an item is no closing one. -/
theorem Style.Readable.layoutItems_opening (pretty : Bool) (depth : Nat) (v : Json)
    (vs : List Json) (r s : List Char) :
    layoutItems w pretty (depth + 1) (v :: vs) ++ (lineBreak pretty depth ++ ']' :: r)
      ≠ ']' :: s := by
  intro h
  rw [layoutItems_append] at h
  cases pretty with
  | true => exact absurd (List.cons.inj h).1 (by decide)
  | false =>
    obtain ⟨c, cs, hc, hshape⟩ := hw.exists_opening false false (depth + 1) v
    rw [hc] at h
    rw [(List.cons.inj h).1] at hshape
    exact absurd hshape (by simp [Shape.ofOpening?])

/-- Behind an opening bracket, a field is no closing one. -/
theorem Style.Readable.layoutFields_opening (pretty : Bool) (depth : Nat) (f : String × Json)
    (fs : List (String × Json)) (r s : List Char) :
    layoutFields w pretty (depth + 1) (f :: fs) ++ (lineBreak pretty depth ++ '}' :: r)
      ≠ '}' :: s := by
  obtain ⟨k, v⟩ := f
  intro h
  rw [layoutFields_append] at h
  cases pretty with
  | true => exact absurd (List.cons.inj h).1 (by decide)
  | false => exact hw.key_opening k _ s h

end Reading

variable {w : Style} {ok : String → Prop}

mutual

/-- **A value can be read off its text**, whatever follows that is no digit. -/
theorem Style.Readable.layoutAt_append_inj (hw : w.Readable ok) (pretty : Bool) :
    ∀ (v v' : Json) {raw : Bool} {depth : Nat} {r s : List Char}, Admitted ok raw v →
      Admitted ok raw v' → Text.Breaks Char.isDigit r → Text.Breaks Char.isDigit s →
      layoutAt w pretty raw depth v ++ r = layoutAt w pretty raw depth v' ++ s → v = v' ∧ r = s
  | .null, v', _, _, r, s, _, _, _, _, h => by
    obtain rfl := eq_null_of_shape (hw.shape_eq h).symm
    exact ⟨rfl, List.append_cancel_left h⟩
  | .bool b, v', _, _, r, s, _, _, _, _, h => by
    obtain rfl := eq_bool_of_shape (hw.shape_eq h).symm
    exact ⟨rfl, List.append_cancel_left h⟩
  | .int n, v', _, _, r, s, _, _, hr, hs, h => by
    obtain ⟨n', rfl⟩ := exists_int_of_shape (hw.shape_eq h).symm
    obtain ⟨hn, hrs⟩ := repr_append_inj hr hs h
    exact ⟨by rw [hn], hrs⟩
  | .str a, v', raw, _, r, s, hv, hv', _, _, h => by
    obtain ⟨a', rfl⟩ := exists_str_of_shape (hw.shape_eq h).symm
    have hok : raw = true → ok a ∧ ok a' := fun hraw =>
      ⟨hv.ownString hraw a List.mem_cons_self, hv'.ownString hraw a' List.mem_cons_self⟩
    obtain ⟨ha, hrs⟩ := hw.string_append_inj hok h
    exact ⟨by rw [ha], hrs⟩
  | .arr vs, v', _, _, r, s, hv, hv', _, _, h => by
    obtain ⟨vs', rfl⟩ := exists_arr_of_shape (hw.shape_eq h).symm
    rw [layoutAt_arr, layoutAt_arr] at h
    rcases enclosed_cases (hw.layoutItems_opening pretty _) h with ⟨rfl, rfl, hrs⟩ | hitems
    · exact ⟨rfl, hrs⟩
    · obtain ⟨hvs, hrs⟩ := hw.layoutItems_append_inj pretty vs vs' hv.sources
        hv'.sources hitems.1 hitems.2.1 hitems.2.2
      exact ⟨by rw [hvs], hrs⟩
  | .obj fs, v', _, _, r, s, hv, hv', _, _, h => by
    obtain ⟨fs', rfl⟩ := exists_obj_of_shape (hw.shape_eq h).symm
    rw [layoutAt_obj, layoutAt_obj] at h
    rcases enclosed_cases (hw.layoutFields_opening pretty _) h with ⟨rfl, rfl, hrs⟩ | hfields
    · exact ⟨rfl, hrs⟩
    · obtain ⟨hfs, hrs⟩ := hw.layoutFields_append_inj pretty fs fs' hv.sources
        hv'.sources hfields.1 hfields.2.1 hfields.2.2
      exact ⟨by rw [hfs], hrs⟩

theorem Style.Readable.layoutItems_append_inj (hw : w.Readable ok) (pretty : Bool) :
    ∀ (vs vs' : List Json) {depth : Nat} {r s : List Char}, (∀ a ∈ sourcesOfItems vs, ok a) →
      (∀ a ∈ sourcesOfItems vs', ok a) → vs ≠ [] → vs' ≠ [] →
      layoutItems w pretty (depth + 1) vs ++ (lineBreak pretty depth ++ ']' :: r)
        = layoutItems w pretty (depth + 1) vs' ++ (lineBreak pretty depth ++ ']' :: s) →
      vs = vs' ∧ r = s
  | [], _, _, _, _, _, _, hne, _, _ => absurd rfl hne
  | _ :: _, [], _, _, _, _, _, _, hne, _ => absurd rfl hne
  | v :: vs, v' :: vs', depth, r, s, hok, hok', _, _, h => by
    obtain ⟨hv, hvs⟩ := List.forall_mem_append.mp hok
    obtain ⟨hv', hvs'⟩ := List.forall_mem_append.mp hok'
    rw [layoutItems_append, layoutItems_append] at h
    obtain ⟨hhead, hafter⟩ := hw.layoutAt_append_inj pretty v v'
      (.ofSources hv) (.ofSources hv') (afterItem_breaks (by decide) _ _ _)
      (afterItem_breaks (by decide) _ _ _) (List.append_cancel_left h)
    obtain ⟨hlast, hrest⟩ := afterItem_inj (by decide) hafter
    cases vs with
    | nil =>
      obtain rfl := List.isEmpty_iff.mp hlast.symm
      exact ⟨by rw [hhead], hrest⟩
    | cons u us =>
      have hne : vs' ≠ [] := fun he => absurd hlast (by rw [he]; simp)
      obtain ⟨htail, hrs⟩ := hw.layoutItems_append_inj pretty (u :: us) vs' hvs hvs'
        (List.cons_ne_nil u us) hne hrest
      exact ⟨by rw [hhead, htail], hrs⟩

theorem Style.Readable.layoutFields_append_inj (hw : w.Readable ok) (pretty : Bool) :
    ∀ (fs fs' : List (String × Json)) {depth : Nat} {r s : List Char},
      (∀ a ∈ sourcesOfFields fs, ok a) → (∀ a ∈ sourcesOfFields fs', ok a) → fs ≠ [] → fs' ≠ [] →
      layoutFields w pretty (depth + 1) fs ++ (lineBreak pretty depth ++ '}' :: r)
        = layoutFields w pretty (depth + 1) fs' ++ (lineBreak pretty depth ++ '}' :: s) →
      fs = fs' ∧ r = s
  | [], _, _, _, _, _, _, hne, _, _ => absurd rfl hne
  | _ :: _, [], _, _, _, _, _, _, hne, _ => absurd rfl hne
  | (k, v) :: fs, (k', v') :: fs', depth, r, s, hok, hok', _, _, h => by
    obtain ⟨hv, hfs⟩ := admitted_of_field hok
    obtain ⟨hv', hfs'⟩ := admitted_of_field hok'
    rw [layoutFields_append, layoutFields_append] at h
    obtain ⟨hkey, hvalue⟩ := hw.key_append_inj (List.append_cancel_left h)
    rw [← hkey] at hv' hvalue
    obtain ⟨hhead, hafter⟩ := hw.layoutAt_append_inj pretty v v' hv hv'
      (afterItem_breaks (by decide) _ _ _) (afterItem_breaks (by decide) _ _ _)
      (List.append_cancel_left hvalue)
    obtain ⟨hlast, hrest⟩ := afterItem_inj (by decide) hafter
    cases fs with
    | nil =>
      obtain rfl := List.isEmpty_iff.mp hlast.symm
      exact ⟨by rw [hkey, hhead], hrest⟩
    | cons f fs =>
      have hne : fs' ≠ [] := fun he => absurd hlast (by rw [he]; simp)
      obtain ⟨htail, hrs⟩ := hw.layoutFields_append_inj pretty (f :: fs) fs' hfs hfs'
        (List.cons_ne_nil f fs) hne hrest
      exact ⟨by rw [hkey, hhead, htail], hrs⟩

end

/-! ## Texts and literals -/

/-- **A value can be read off its JSON text.** -/
theorem text_injective (pretty : Bool) : Function.Injective (Json.text pretty) := by
  intro v v' h
  have htext : textAt pretty 0 v ++ [] = textAt pretty 0 v' ++ [] := by
    rw [String.ofList_injective h]
  rw [textAt_eq_layoutAt pretty false, textAt_eq_layoutAt pretty false] at htext
  exact (Style.quoted_readable.layoutAt_append_inj pretty v v' (.ofSources fun _ _ => trivial)
    (.ofSources fun _ _ => trivial) (Text.breaks_nil _) (Text.breaks_nil _) htext).1

/-- **A value can be read off its literal** if no string directly under the key for blocks holds a
backslash, on one line or over several. -/
theorem exported_inj (pretty : Bool) {v v' : Json} (hv : ∀ a ∈ v.sources, '\\' ∉ a.toList)
    (hv' : ∀ a ∈ v'.sources, '\\' ∉ a.toList) :
    v.exported pretty = v'.exported pretty ↔ v = v' := by
  refine ⟨fun h => ?_, fun h => by rw [h]⟩
  unfold exported at h
  have htext := String.ofList_injective h
  rw [List.append_assoc, List.append_assoc, literalAt_eq_layoutAt, literalAt_eq_layoutAt] at htext
  exact (Style.bare_readable.layoutAt_append_inj pretty v v' (.ofSources hv) (.ofSources hv')
    (Text.breaks_cons (by decide)) (Text.breaks_cons (by decide)) (List.append_cancel_left htext)).1

/-- A source that looks like the end of itself and the beginning of the next one. -/
def sourceInSource : Json :=
  .obj [("source", .str "a\x60,\"b-c\":\x7bsource:\x60d")]

/-- Two sources, of which the second one is further inside. -/
def twoSources : Json :=
  .obj [("source", .str "a"), ("b-c", .obj [("source", .str "d")])]

/-- The backticks that a source holds do not end it. -/
theorem exported_inj_sourceInSource :
    (∀ a ∈ sourceInSource.sources, '\\' ∉ a.toList) ∧ (∀ a ∈ twoSources.sources, '\\' ∉ a.toList) ∧
      (sourceInSource.exported false = twoSources.exported false ↔ sourceInSource = twoSources) ∧
      sourceInSource ≠ twoSources :=
  ⟨by decide, by decide, exported_inj false (by decide) (by decide),
    by simp [sourceInSource, twoSources]⟩

end CallVicinity.Json
