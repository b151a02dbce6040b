import CallVicinity.Proofs.Json.Layout

/-!
# What a literal writes in another way than JSON

The JSON text of a value falls into words: its strings, and the other characters one by one. The
words around a string tell what it is. It is a key if a colon follows, and it is the value of a key
if that key and its colon stand before it (`piecesFrom`). So the literal of a value can be had from
the JSON text, without the value:

> `Json.exported_replaces`: the text falls into words in one way only, and the literal is the same
> words, except that keys are bare where they can be, and that a string behind the key for blocks is
> a block.

The pieces of a value (`piecesAt`) are the bridge. They are its layout before a style is chosen
(`flatMap_piecesAt`), and the words that they are written with are read back as they are
(`reads_piecesAt`). The second part follows the value and is put together from what is read in a row
(`Reads.append`): the reader keeps one key in mind, which every sign but colons and blanks makes it
forget, and a string only looks at the next word.
-/

namespace CallVicinity.Json

/-! ## Words -/

/-- A word of a JSON text: a string, or one character outside of strings. -/
inductive Word where
  | sign (c : Char)
  | string (s : String)
deriving DecidableEq

/-- How a word is written in JSON. -/
def Word.text : Word → List Char
  | .sign c => [c]
  | .string s => quote s

/-- The text is made of the words, among which there is no quote by itself. -/
structure IsText (ws : List Word) (text : List Char) : Prop where
  text_eq : ws.flatMap Word.text = text
  noQuote : .sign '"' ∉ ws

/-- **A text falls into words in one way only.** -/
theorem IsText.unique {ws ws' : List Word} {text : List Char} (h : IsText ws text)
    (h' : IsText ws' text) : ws = ws' := by
  obtain ⟨rfl, hquote⟩ := h
  obtain ⟨heq, hquote'⟩ := h'
  -- no word is empty, and a string is a word that opens with a quote
  have hopens : ∀ (c : Char) (s : String) (r r' : List Char), c ≠ '"' → c :: r ≠ quote s ++ r' :=
    fun c s r r' hc he => hc (List.cons.inj he).1
  induction ws generalizing ws' with
  | nil =>
    cases ws' with
    | nil => rfl
    | cons w' ws' => cases w' <;> exact absurd heq (by simp [Word.text, quote])
  | cons w ws ih =>
    rw [List.mem_cons, not_or] at hquote
    cases ws' with
    | nil => cases w <;> exact absurd heq (by simp [Word.text, quote])
    | cons w' ws' =>
      rw [List.mem_cons, not_or] at hquote'
      rw [List.flatMap_cons, List.flatMap_cons] at heq
      match w, w', hquote.1, hquote'.1, heq with
      | .sign c, .sign c', _, _, heq =>
        obtain ⟨rfl, hrest⟩ := List.cons.inj heq
        rw [ih hquote.2 hrest hquote'.2]
      | .sign c, .string s', hc, _, heq =>
        exact absurd heq.symm (hopens c s' _ _ fun he => hc (by rw [he]))
      | .string s, .sign c', _, hc', heq =>
        exact absurd heq (hopens c' s _ _ fun he => hc' (by rw [he]))
      | .string s, .string s', _, _, heq =>
        obtain ⟨rfl, hrest⟩ := quote_append_inj heq
        rw [ih hquote.2 hrest hquote'.2]

/-! ## Pieces -/

/-- A word together with what it is. With `raw`, a string is the value of the key for blocks. -/
inductive Piece where
  | sign (c : Char)
  | key (k : String)
  | value (raw : Bool) (s : String)
deriving DecidableEq

namespace Piece

/-- The word that a piece is in JSON. -/
def word : Piece → Word
  | .sign c => .sign c
  | .key k => .string k
  | .value _ s => .string s

/-- How a piece is written in a style. -/
def write (w : Style) : Piece → List Char
  | .sign c => [c]
  | .key k => w.key k
  | .value raw s => w.string raw s

/-- Whether the styles can differ about a piece. -/
def isMarked : Piece → Bool
  | .sign _ => false
  | .key _ => true
  | .value raw _ => raw

end Piece

/-- What words are. The key with which the words before end is `under`, where nothing but its colon
and blanks follow it. -/
def piecesFrom (under : Option String) : List Word → List Piece
  | [] => []
  | .sign c :: ws => .sign c :: piecesFrom (if c = ':' ∨ c = ' ' then under else none) ws
  | .string s :: ws =>
    if ws.head? = some (.sign ':') then .key s :: piecesFrom (some s) ws
    else .value (under == some blockKey) s :: piecesFrom none ws

/-- What the words of a text are. -/
def pieces (ws : List Word) : List Piece := piecesFrom none ws

mutual

/-- The keys in a value and the strings in it that are values of the key for blocks, in order. With
`raw`, the value itself is one of that key. -/
def marked (raw : Bool) : Json → List Piece
  | .str s => if raw then [.value true s] else []
  | .arr items => markedItems items
  | .obj fields => markedFields fields
  | _ => []

/-- The keys and the strings under the key for blocks in the items of a list. -/
def markedItems : List Json → List Piece
  | [] => []
  | v :: vs => v.marked false ++ markedItems vs

/-- The keys and the strings under the key for blocks in the fields of an object. -/
def markedFields : List (String × Json) → List Piece
  | [] => []
  | (k, v) :: fs => .key k :: (v.marked (k == blockKey) ++ markedFields fs)

end

/-- Characters outside of strings. -/
def signs (cs : List Char) : List Piece := cs.map .sign

mutual

/-- The pieces of a value at a depth. -/
def piecesAt (pretty raw : Bool) (depth : Nat) : Json → List Piece
  | .null => signs "null".toList
  | .bool true => signs "true".toList
  | .bool false => signs "false".toList
  | .int n => signs n.repr.toList
  | .str s => [.value raw s]
  | .arr items =>
    if items.isEmpty then signs ['[', ']']
    else .sign '[' :: (piecesOfItems pretty (depth + 1) items ++
      signs (lineBreak pretty depth ++ [']']))
  | .obj fields =>
    if fields.isEmpty then signs ['{', '}']
    else .sign '{' :: (piecesOfFields pretty (depth + 1) fields ++
      signs (lineBreak pretty depth ++ ['}']))

/-- The pieces of the items of a list at a depth. -/
def piecesOfItems (pretty : Bool) (depth : Nat) : List Json → List Piece
  | [] => []
  | v :: vs =>
    signs (lineBreak pretty depth) ++ (piecesAt pretty false depth v ++
      (if vs.isEmpty then [] else .sign ',' :: piecesOfItems pretty depth vs))

/-- The pieces of the fields of an object at a depth. -/
def piecesOfFields (pretty : Bool) (depth : Nat) : List (String × Json) → List Piece
  | [] => []
  | (k, v) :: fs =>
    signs (lineBreak pretty depth) ++ (.key k :: (signs (colon pretty) ++
      (piecesAt pretty (k == blockKey) depth v ++
        (if fs.isEmpty then [] else .sign ',' :: piecesOfFields pretty depth fs))))

end

theorem piecesAt_arr (pretty raw : Bool) (depth : Nat) (items : List Json) :
    piecesAt pretty raw depth (.arr items)
      = if items.isEmpty then signs ['[', ']']
        else .sign '[' :: (piecesOfItems pretty (depth + 1) items ++
          signs (lineBreak pretty depth ++ [']'])) := rfl

theorem piecesAt_obj (pretty raw : Bool) (depth : Nat) (fields : List (String × Json)) :
    piecesAt pretty raw depth (.obj fields)
      = if fields.isEmpty then signs ['{', '}']
        else .sign '{' :: (piecesOfFields pretty (depth + 1) fields ++
          signs (lineBreak pretty depth ++ ['}'])) := rfl

/-! ## Writing -/

theorem flatMap_signs (w : Style) (cs : List Char) : (signs cs).flatMap (Piece.write w) = cs := by
  induction cs with
  | nil => rfl
  | cons c cs ih =>
    show c :: (signs cs).flatMap (Piece.write w) = c :: cs
    rw [ih]

mutual

/-- The pieces of a value are its layout in every style. -/
theorem flatMap_piecesAt (w : Style) (pretty : Bool) : ∀ (v : Json) (raw : Bool) (depth : Nat),
    (piecesAt pretty raw depth v).flatMap (Piece.write w) = layoutAt w pretty raw depth v
  | .null, _, _ => flatMap_signs w _
  | .bool true, _, _ => flatMap_signs w _
  | .bool false, _, _ => flatMap_signs w _
  | .int _, _, _ => flatMap_signs w _
  | .str s, raw, _ => List.append_nil _
  | .arr items, _, depth => by
    rw [piecesAt_arr, layoutAt_arr, enclosed]
    split
    next => exact flatMap_signs w _
    next =>
      rw [List.flatMap_cons, List.flatMap_append, flatMap_signs,
        flatMap_piecesOfItems w pretty items (depth + 1)]
      simp only [Piece.write, List.cons_append, List.nil_append, List.append_assoc]
  | .obj fields, _, depth => by
    rw [piecesAt_obj, layoutAt_obj, enclosed]
    split
    next => exact flatMap_signs w _
    next =>
      rw [List.flatMap_cons, List.flatMap_append, flatMap_signs,
        flatMap_piecesOfFields w pretty fields (depth + 1)]
      simp only [Piece.write, List.cons_append, List.nil_append, List.append_assoc]

theorem flatMap_piecesOfItems (w : Style) (pretty : Bool) : ∀ (vs : List Json) (depth : Nat),
    (piecesOfItems pretty depth vs).flatMap (Piece.write w) = layoutItems w pretty depth vs
  | [], _ => rfl
  | v :: vs, depth => by
    rw [piecesOfItems, layoutItems, List.flatMap_append, List.flatMap_append, flatMap_signs,
      flatMap_piecesAt w pretty v false depth, List.append_assoc]
    split
    next => rfl
    next => rw [List.flatMap_cons, flatMap_piecesOfItems w pretty vs depth]; rfl

theorem flatMap_piecesOfFields (w : Style) (pretty : Bool) :
    ∀ (fs : List (String × Json)) (depth : Nat),
      (piecesOfFields pretty depth fs).flatMap (Piece.write w) = layoutFields w pretty depth fs
  | [], _ => rfl
  | (k, v) :: fs, depth => by
    rw [piecesOfFields, layoutFields, List.flatMap_append, List.flatMap_cons, List.flatMap_append,
      List.flatMap_append, flatMap_signs, flatMap_signs,
      flatMap_piecesAt w pretty v (k == blockKey) depth]
    simp only [List.append_assoc]
    split
    next => rfl
    next => rw [List.flatMap_cons, flatMap_piecesOfFields w pretty fs depth]; rfl

end

/-! ## Reading -/

/-- Pieces whose words are read back as they are, if the key that the reader has in mind fits and no
colon follows. Among them are the marked ones given. -/
structure Reads (fits : Option String → Prop) (marks ps : List Piece) : Prop where
  noQuote : .sign '"' ∉ ps
  marked_eq : ps.filter Piece.isMarked = marks
  read : ∀ under after, fits under → after.head? ≠ some (.sign ':') →
    piecesFrom under (ps.map Piece.word ++ after) = ps ++ piecesFrom none after

/-- A sign that makes the reader forget the key, and that is no quote. -/
def Forgets (c : Char) : Prop := c ≠ ':' ∧ c ≠ ' ' ∧ c ≠ '"'

instance (c : Char) : Decidable (Forgets c) := inferInstanceAs (Decidable (_ ∧ _))

section Reads

variable {fits : Option String → Prop} {marks marks' ps qs : List Piece}

theorem reads_nil : Reads (· = none) [] [] where
  noQuote := List.not_mem_nil
  marked_eq := rfl
  read under after hunder _ := by rw [hunder]; rfl

theorem Reads.imp {fits' : Option String → Prop} (h : Reads fits marks ps)
    (himp : ∀ under, fits' under → fits under) : Reads fits' marks ps :=
  ⟨h.noQuote, h.marked_eq, fun under after hunder => h.read under after (himp under hunder)⟩

theorem Reads.append (h : Reads fits marks ps) (h' : Reads (· = none) marks' qs)
    (hcolon : qs.head? ≠ some (.sign ':')) : Reads fits (marks ++ marks') (ps ++ qs) where
  noQuote := by
    rw [List.mem_append, not_or]
    exact ⟨h.noQuote, h'.noQuote⟩
  marked_eq := by rw [List.filter_append, h.marked_eq, h'.marked_eq]
  read under after hunder hafter := by
    have hnext : (qs.map Piece.word ++ after).head? ≠ some (.sign ':') := by
      match qs, hcolon with
      | [], _ => exact hafter
      | .sign c :: qs, hc => exact fun he => hc (by rw [← Word.sign.inj (Option.some.inj he)]; rfl)
      | .key k :: qs, _ => exact fun he => absurd (Option.some.inj he) (by simp [Piece.word])
      | .value raw s :: qs, _ => exact fun he => absurd (Option.some.inj he) (by simp [Piece.word])
    rw [List.map_append, List.append_assoc, h.read under _ hunder hnext,
      h'.read none after rfl hafter, List.append_assoc]

/-- With no key in mind the reader passes over signs. -/
theorem Reads.signs_append (h : Reads (· = none) marks ps) :
    ∀ {cs : List Char}, '"' ∉ cs → Reads (· = none) marks (signs cs ++ ps) := by
  intro cs hcs
  induction cs with
  | nil => exact h
  | cons c cs ih =>
    rw [List.mem_cons, not_or] at hcs
    obtain ⟨hquote, hmarked, hread⟩ := ih hcs.2
    refine ⟨?_, hmarked, fun under after hunder hafter => ?_⟩
    · rw [signs, List.map_cons, List.cons_append, List.mem_cons, not_or]
      exact ⟨fun he => hcs.1 (Piece.sign.inj he), hquote⟩
    · have hstate : (if c = ':' ∨ c = ' ' then under else none) = none := by rw [hunder, ite_self]
      show .sign c :: piecesFrom (if c = ':' ∨ c = ' ' then under else none)
        ((signs cs ++ ps).map Piece.word ++ after) = _
      rw [hstate, hread none after rfl hafter]
      rfl

theorem reads_signs {cs : List Char} (h : '"' ∉ cs) : Reads (· = none) [] (signs cs) := by
  have hsigns := reads_nil.signs_append h
  rw [List.append_nil] at hsigns
  exact hsigns

/-- Behind a sign that makes the reader forget, it does not matter what it had in mind. -/
theorem Reads.forget {c : Char} (hc : Forgets c) (h : Reads (· = none) marks ps) :
    Reads fits marks (.sign c :: ps) where
  noQuote := by
    rw [List.mem_cons, not_or]
    exact ⟨fun he => hc.2.2 (Piece.sign.inj he).symm, h.noQuote⟩
  marked_eq := h.marked_eq
  read under after _ hafter := by
    have hstate : (if c = ':' ∨ c = ' ' then under else none) = none :=
      if_neg (not_or.mpr ⟨hc.1, hc.2.1⟩)
    show .sign c :: piecesFrom (if c = ':' ∨ c = ' ' then under else none)
      (ps.map Piece.word ++ after) = _
    rw [hstate, h.read none after rfl hafter]
    rfl

/-- A scalar that is no string. -/
theorem reads_scalar {cs : List Char} (hne : cs ≠ []) (h : cs.all (Forgets ·) = true) :
    Reads fits [] (signs cs) := by
  have hall : ∀ c ∈ cs, Forgets c := fun c hc => of_decide_eq_true (List.all_eq_true.mp h c hc)
  obtain ⟨c, cs, rfl⟩ := List.exists_cons_of_ne_nil hne
  refine Reads.forget (hall c List.mem_cons_self) (reads_signs fun hmem => ?_)
  exact (hall '"' (List.mem_cons_of_mem _ hmem)).2.2 rfl

/-- A string is under the key that the reader has in mind. -/
theorem reads_string (raw : Bool) (s : String) :
    Reads (fun under => (under == some blockKey) = raw) (marked raw (.str s)) [.value raw s] where
  noQuote := by simp
  marked_eq := by cases raw <;> rfl
  read under after hunder hafter := by
    show (if after.head? = some (.sign ':') then _ else _) = _
    rw [if_neg hafter, hunder]
    rfl

/-- A key is in the reader's mind behind its colon. -/
theorem Reads.key {k : String} (pretty : Bool)
    (h : Reads (fun under => (under == some blockKey) = (k == blockKey)) marks ps) :
    Reads (· = none) (.key k :: marks) (.key k :: (signs (colon pretty) ++ ps)) where
  noQuote := by
    have hcolon : .sign '"' ∉ signs (colon pretty) := by cases pretty <;> decide
    simp [hcolon, h.noQuote]
  marked_eq := by
    have hcolon : (signs (colon pretty)).filter Piece.isMarked = [] := by cases pretty <;> rfl
    rw [List.filter_cons_of_pos rfl, List.filter_append, hcolon, h.marked_eq, List.nil_append]
  read under after _ hafter := by
    have hk : (some k == some blockKey) = (k == blockKey) := rfl
    have hvalue := h.read (some k) after hk hafter
    cases pretty with
    | true => simp [Piece.word, signs, colon, piecesFrom, hvalue]
    | false => simp [Piece.word, signs, colon, piecesFrom, hvalue]

theorem reads_repr (n : Int) : Reads fits [] (signs n.repr.toList) := by
  have hdigits : ∀ n : Nat, n.repr.toList.all (Forgets ·) = true := by
    intro n
    refine List.all_eq_true.mpr fun c hc => decide_eq_true ?_
    have hdigit := isDigit_of_mem_repr hc
    refine ⟨?_, ?_, ?_⟩ <;> rintro rfl <;> exact absurd hdigit (by decide)
  cases n with
  | ofNat n =>
    obtain ⟨c, cs, hcs, -⟩ := exists_repr_cons n
    refine reads_scalar ?_ (hdigits n)
    show n.repr.toList ≠ []
    rw [hcs]
    exact List.cons_ne_nil c cs
  | negSucc n =>
    rw [toList_repr_negSucc]
    refine reads_scalar (List.cons_ne_nil _ _) ?_
    rw [List.all_cons, hdigits]
    rfl

theorem quote_not_mem_lineBreak (pretty : Bool) (depth : Nat) : '"' ∉ lineBreak pretty depth := by
  cases pretty <;> simp [lineBreak]

/-- What stands between brackets. -/
theorem Reads.enclosed {opening closing : Char} (ho : Forgets opening) (hc : Forgets closing)
    (pretty : Bool) (depth : Nat) (h : Reads (· = none) marks ps) :
    Reads fits marks (.sign opening :: (ps ++ signs (lineBreak pretty depth ++ [closing]))) := by
  have hclosing : Reads (· = none) [] (signs (lineBreak pretty depth ++ [closing])) := by
    refine reads_signs fun hmem => ?_
    rcases List.mem_append.mp hmem with hbreak | hlast
    · exact quote_not_mem_lineBreak pretty depth hbreak
    · exact hc.2.2 (List.mem_singleton.mp hlast).symm
  have hcolon : (signs (lineBreak pretty depth ++ [closing])).head? ≠ some (.sign ':') := by
    cases pretty with
    | true => simp [signs, lineBreak]
    | false => simpa [signs, lineBreak] using hc.1
  have hinside := h.append hclosing hcolon
  rw [List.append_nil] at hinside
  exact hinside.forget ho

/-- What stands in a row with commas. -/
theorem Reads.comma {α : Type} {xs : List α} (h : Reads fits marks ps)
    (h' : Reads (· = none) marks' qs) (hnil : xs = [] → marks' = []) :
    Reads fits (marks ++ marks') (ps ++ if xs.isEmpty then [] else .sign ',' :: qs) := by
  split
  next hempty =>
    rw [hnil (List.isEmpty_iff.mp hempty)]
    exact h.append reads_nil (by simp)
  next => exact h.append (h'.forget (by decide)) (by simp)

end Reads

mutual

/-- **The words of a value's pieces are read back as the pieces.** -/
theorem reads_piecesAt (pretty : Bool) : ∀ (v : Json) (raw : Bool) (depth : Nat),
    Reads (fun under => (under == some blockKey) = raw) (v.marked raw) (piecesAt pretty raw depth v)
  | .null, _, _ => reads_scalar (by decide) (by decide)
  | .bool true, _, _ => reads_scalar (by decide) (by decide)
  | .bool false, _, _ => reads_scalar (by decide) (by decide)
  | .int n, _, _ => reads_repr n
  | .str s, raw, _ => reads_string raw s
  | .arr items, _, depth => by
    rw [piecesAt_arr, marked]
    split
    next h =>
      rw [List.isEmpty_iff.mp h]
      exact reads_scalar (by decide) (by decide)
    next =>
      exact (reads_piecesOfItems pretty items (depth + 1)).enclosed (by decide) (by decide) pretty
        depth
  | .obj fields, _, depth => by
    rw [piecesAt_obj, marked]
    split
    next h =>
      rw [List.isEmpty_iff.mp h]
      exact reads_scalar (by decide) (by decide)
    next =>
      exact (reads_piecesOfFields pretty fields (depth + 1)).enclosed (by decide) (by decide) pretty
        depth

theorem reads_piecesOfItems (pretty : Bool) : ∀ (vs : List Json) (depth : Nat),
    Reads (· = none) (markedItems vs) (piecesOfItems pretty depth vs)
  | [], _ => reads_nil
  | v :: vs, depth => by
    have hv : Reads (· = none) (v.marked false) (piecesAt pretty false depth v) :=
      (reads_piecesAt pretty v false depth).imp fun under hunder => by rw [hunder]; rfl
    have hvs := reads_piecesOfItems pretty vs depth
    rw [piecesOfItems, markedItems]
    refine Reads.signs_append ?_ (quote_not_mem_lineBreak pretty depth)
    exact hv.comma hvs fun h => by rw [h]; rfl

theorem reads_piecesOfFields (pretty : Bool) : ∀ (fs : List (String × Json)) (depth : Nat),
    Reads (· = none) (markedFields fs) (piecesOfFields pretty depth fs)
  | [], _ => reads_nil
  | (k, v) :: fs, depth => by
    have hv := reads_piecesAt pretty v (k == blockKey) depth
    have hfs := reads_piecesOfFields pretty fs depth
    rw [piecesOfFields, markedFields]
    refine Reads.signs_append (Reads.key pretty ?_) (quote_not_mem_lineBreak pretty depth)
    exact hv.comma hfs fun h => by rw [h]; rfl

end

/-! ## Texts and literals -/

theorem text_eq_layoutAt (pretty : Bool) (v : Json) :
    v.text pretty = String.ofList (layoutAt .quoted pretty false 0 v) := by
  rw [← textAt_eq_layoutAt]
  rfl

theorem exported_eq_layoutAt (pretty : Bool) (v : Json) :
    v.exported pretty
      = "export default " ++ String.ofList (layoutAt .bare pretty false 0 v) ++ ";" := by
  rw [← literalAt_eq_layoutAt]
  unfold exported
  rw [String.ofList_append, String.ofList_append, String.ofList_toList]

theorem flatMap_word (ps : List Piece) :
    (ps.map Piece.word).flatMap Word.text = ps.flatMap (Piece.write .quoted) := by
  rw [List.flatMap_map]
  refine List.flatMap_congr fun p _ => ?_
  cases p <;> rfl

/-- Strings are raw only behind the key for blocks. -/
theorem raw_not_mem_piecesFrom {s : String} :
    ∀ (ws : List Word) {under : Option String}, under ≠ some blockKey →
      .key blockKey ∉ piecesFrom under ws → .value true s ∉ piecesFrom under ws := by
  intro ws
  induction ws with
  | nil => intro under _ _; exact List.not_mem_nil
  | cons w ws ih =>
    intro under hunder hkey
    cases w with
    | sign c =>
      rw [piecesFrom, List.mem_cons, not_or] at hkey ⊢
      refine ⟨by simp, ih ?_ hkey.2⟩
      split
      next => exact hunder
      next => simp
    | string k =>
      rw [piecesFrom] at hkey ⊢
      split at hkey
      next hcolon =>
        rw [if_pos hcolon]
        rw [List.mem_cons, not_or] at hkey ⊢
        exact ⟨by simp, ih (fun he => hkey.1 (by rw [Option.some.inj he])) hkey.2⟩
      next hcolon =>
        rw [if_neg hcolon]
        rw [List.mem_cons, not_or] at hkey ⊢
        refine ⟨fun he => ?_, ih (by simp) hkey.2⟩
        exact hunder (eq_of_beq (Piece.value.inj he).1.symm)

/-- Where no key is an identifier, the styles agree. -/
theorem flatMap_bare_eq_quoted {ws : List Word}
    (h : ∀ k, .key k ∈ pieces ws → isIdentifier k.toList = false) :
    (pieces ws).flatMap (Piece.write .bare) = (pieces ws).flatMap (Piece.write .quoted) := by
  -- the key for blocks is an identifier itself
  have hblock : .key blockKey ∉ pieces ws := fun hk => absurd (h blockKey hk) (by decide)
  refine List.flatMap_congr fun p hp => ?_
  match p, hp with
  | .sign c, _ => rfl
  | .key k, hk => exact if_neg (by rw [h k hk]; simp)
  | .value false s, _ => rfl
  | .value true s, hs => exact absurd hs (raw_not_mem_piecesFrom ws (by simp) hblock)

theorem pieces_piecesAt (pretty : Bool) (v : Json) :
    pieces ((piecesAt pretty false 0 v).map Piece.word) = piecesAt pretty false 0 v := by
  have hread := (reads_piecesAt pretty v false 0).read none [] rfl (by simp)
  rw [List.append_nil] at hread
  exact hread.trans (List.append_nil _)

/-- The words of a value's pieces are the words of its text. -/
theorem isText_piecesAt (pretty : Bool) (v : Json) :
    IsText ((piecesAt pretty false 0 v).map Piece.word) (v.text pretty).toList where
  text_eq := by rw [flatMap_word, flatMap_piecesAt, text_eq_layoutAt, String.toList_ofList]
  noQuote := by
    intro hmem
    obtain ⟨p, hp, hword⟩ := List.mem_map.mp hmem
    cases p with
    | sign c =>
      rw [Word.sign.inj hword] at hp
      exact (reads_piecesAt pretty v false 0).noQuote hp
    | key k => cases hword
    | value raw s => cases hword

/-- **A literal is the JSON text with keys and sources written in another way.** The text falls into
words in one way only. What the words are can be seen from the words around them, and those that are
keys or strings under the key for blocks are the same, in the same order, as those of the value.
Identifiers among the keys are bare in the literal, strings under the key for blocks are blocks, and
all else is as in the text. So nothing changes where no key is an identifier. -/
theorem exported_replaces (pretty : Bool) (v : Json) :
    ∃ ws, (∀ ws', IsText ws' (v.text pretty).toList ↔ ws' = ws) ∧
      (pieces ws).filter Piece.isMarked = v.marked false ∧
      v.text pretty = String.ofList ((pieces ws).flatMap (Piece.write .quoted)) ∧
      v.exported pretty
        = "export default " ++ String.ofList ((pieces ws).flatMap (Piece.write .bare)) ++ ";" ∧
      ((∀ k, .key k ∈ v.marked false → isIdentifier k.toList = false) →
        v.exported pretty = "export default " ++ v.text pretty ++ ";") := by
  have hpieces := pieces_piecesAt pretty v
  have hmarked := (reads_piecesAt pretty v false 0).marked_eq
  have htext : v.text pretty
      = String.ofList ((piecesAt pretty false 0 v).flatMap (Piece.write .quoted)) := by
    rw [flatMap_piecesAt]
    exact text_eq_layoutAt pretty v
  have hexported : v.exported pretty = "export default "
      ++ String.ofList ((piecesAt pretty false 0 v).flatMap (Piece.write .bare)) ++ ";" := by
    rw [flatMap_piecesAt]
    exact exported_eq_layoutAt pretty v
  have hwords := isText_piecesAt pretty v
  refine ⟨_, fun ws' => ⟨fun h => h.unique hwords, fun h => h ▸ hwords⟩, ?_⟩
  rw [hpieces]
  refine ⟨hmarked, htext, hexported, fun hkeys => ?_⟩
  have hbare : ∀ k, .key k ∈ piecesAt pretty false 0 v → isIdentifier k.toList = false :=
    fun k hk => hkeys k (hmarked ▸ List.mem_filter.mpr ⟨hk, rfl⟩)
  rw [← hpieces] at hbare
  have hsame := flatMap_bare_eq_quoted hbare
  rw [hpieces] at hsame
  rw [hexported, hsame, ← htext]

end CallVicinity.Json
