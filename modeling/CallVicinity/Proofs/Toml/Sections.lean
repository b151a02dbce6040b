import CallVicinity.Proofs.Text.Lines
import CallVicinity.Proofs.Toml.Values

/-!
# Written sections are read back

A written text has one section after the other, with a blank line between two of them, and a section
is a header and a line for each of its entries. Reading it makes the table of the sections:

> `Toml.read?_sections`: a text of sections with names of their own, in each of which no key is
> given twice, is read as the table of these sections, in their order.

The lines are read one by one, and each of them does one thing to the table under construction: a
header adds an empty section at its end (`readsTo_header`, `define?_new`), and an entry adds a key
to that section (`readsTo_entry`, `insert?_last`). Keys are written bare, so they have to be words
of the characters for that.
-/

namespace CallVicinity.Toml

/-! ## Keys -/

/-- A key that can stand without quotes. -/
def IsBareKey (key : String) : Prop :=
  key.toList ≠ [] ∧ ∀ c ∈ key.toList, isBareKeyChar c = true

instance (key : String) : Decidable (IsBareKey key) :=
  @instDecidableAnd _ _ _ (List.decidableBAll _ key.toList)

/-- A bare key begins with none of the signs of a line. -/
theorem IsBareKey.ne_cons {key : String} (h : IsBareKey key) {c : Char}
    (hc : isBareKeyChar c = false) (cs r : List Char) : key.toList ++ cs ≠ c :: r := by
  obtain ⟨d, ds, hkey⟩ := List.exists_cons_of_ne_nil h.1
  intro he
  rw [hkey] at he
  have hd := h.2 d (hkey ▸ List.mem_cons_self)
  rw [(List.cons.inj he).1, hc] at hd
  cases hd

theorem skipSpaces_of_breaks {cs : List Char} (h : Text.Breaks isSpace cs) :
    skipSpaces cs = cs :=
  Text.dropWhile_of_head? h

theorem IsBareKey.skipSpaces_append {key : String} (h : IsBareKey key) (cs : List Char) :
    skipSpaces (key.toList ++ cs) = key.toList ++ cs := by
  refine skipSpaces_of_breaks fun c hc => ?_
  have hne : ∀ d, isBareKeyChar d = false → c ≠ d := by
    rintro d hd rfl
    obtain ⟨r, hr⟩ := List.head?_eq_some_iff.mp hc
    exact h.ne_cons hd cs r hr
  simp [isSpace, hne ' ' (by decide), hne '\t' (by decide)]

theorem keyPart?_bare {key : String} (h : IsBareKey key) {rest : List Char}
    (hrest : Text.Breaks isBareKeyChar rest) :
    keyPart? (key.toList ++ rest) = some (key, rest) := by
  unfold keyPart?
  split
  next r he => exact absurd he (h.ne_cons (by decide) rest r)
  next r he => exact absurd he (h.ne_cons (by decide) rest r)
  next =>
    dsimp only
    rw [hrest.takeWhile_append h.2, if_neg (by simpa using h.1), List.drop_left,
      String.ofList_toList]

/-- A bare key is read up to the sign behind it. -/
theorem key?_bare {key : String} (h : IsBareKey key) {rest r : List Char} {sign : Char}
    (hrest : Text.Breaks isBareKeyChar rest) (hsign : skipSpaces rest = sign :: r)
    (hdot : sign ≠ '.') : key? (key.toList ++ rest) = some (([], key), sign :: r) := by
  have hparts : keyParts? (depthLimit - 1) (key.toList ++ rest) = some ([key], sign :: r) := by
    show keyParts? (78 + 1) _ = _
    rw [keyParts?, h.skipSpaces_append, keyPart?_bare h hrest, Option.bind_eq_bind,
      Option.bind_some]
    dsimp only
    rw [hsign]
    split
    next more he => exact absurd (List.cons.inj he).1 hdot
    next => rfl
  unfold key?
  rw [hparts]
  rfl

/-! ## Lines -/

/-- A text is read to a table from where the reader has got. -/
def ReadsTo (o : Outlined) (cs : List Char) (t : Table) : Prop :=
  ∀ fuel, cs.length < fuel → lines? fuel o cs = some t

section Lines

variable {o : Outlined} {root : Table} {rest : List Char} {t : Table}

theorem readsTo_nil : ReadsTo o [] o.root := by
  intro fuel hfuel
  obtain ⟨fuel, rfl⟩ := Nat.exists_eq_add_one.mpr hfuel
  rfl

theorem readsTo_blank (hrest : ReadsTo o rest t) : ReadsTo o ('\n' :: rest) t := by
  intro fuel hfuel
  obtain ⟨fuel, rfl⟩ := Nat.exists_eq_add_one.mpr (Nat.lt_of_le_of_lt (Nat.zero_le _) hfuel)
  exact hrest fuel (by simpa using hfuel)

/-- A header opens a section. -/
theorem readsTo_header {name : String} (h : IsBareKey name)
    (hroot : o.root.define? [] name = some root) (hrest : ReadsTo ⟨root, [name]⟩ rest t) :
    ReadsTo o (headerLine name ++ rest) t := by
  intro fuel hfuel
  obtain ⟨fuel, rfl⟩ := Nat.exists_eq_add_one.mpr (Nat.lt_of_le_of_lt (Nat.zero_le _) hfuel)
  have htext : headerLine name ++ rest = '[' :: (name.toList ++ ']' :: '\n' :: rest) := by
    simp [headerLine]
  rw [htext] at hfuel ⊢
  have hlater : lines? fuel ⟨root, [name]⟩ rest = some t :=
    hrest fuel (by simp at hfuel; omega)
  have hkey : key? (name.toList ++ ']' :: '\n' :: rest) = some (([], name), ']' :: '\n' :: rest) :=
    key?_bare h (Text.breaks_cons (by decide)) rfl (by decide)
  have hskip : skipSpaces ('[' :: (name.toList ++ ']' :: '\n' :: rest))
      = '[' :: (name.toList ++ ']' :: '\n' :: rest) := rfl
  rw [lines?, hskip]
  split
  next he => cases he
  next r he => exact absurd (List.cons.inj he).1 (by decide)
  next r he => exact absurd (List.cons.inj he).1 (by decide)
  next r he => exact absurd (List.cons.inj he).1 (by decide)
  next r he => exact absurd (List.cons.inj he).2 (h.ne_cons (by decide) _ r)
  next r _ he =>
    obtain rfl := (List.cons.inj he).2
    rw [hkey]
    show (o.root.define? [] name).bind _ = _
    rw [hroot]
    exact hlater
  next hother => exact absurd rfl (hother _)

/-- An entry is added to the section that is open. -/
theorem readsTo_entry {key : String} (h : IsBareKey key) {text : List Char} {v : Toml}
    (hv : Written 1 text v)
    (hroot : o.root.alter? false (Table.insert? [] key v) o.header = some root)
    (hrest : ReadsTo ⟨root, o.header⟩ rest t) : ReadsTo o (entryLine key text ++ rest) t := by
  intro fuel hfuel
  obtain ⟨fuel, rfl⟩ := Nat.exists_eq_add_one.mpr (Nat.lt_of_le_of_lt (Nat.zero_le _) hfuel)
  have htext : entryLine key text ++ rest
      = key.toList ++ ' ' :: '=' :: ' ' :: (text ++ '\n' :: rest) := by
    simp [entryLine]
  rw [htext] at hfuel ⊢
  have hlater : lines? fuel ⟨root, o.header⟩ rest = some t :=
    hrest fuel (by simp at hfuel; omega)
  have hkey : key? (key.toList ++ ' ' :: '=' :: ' ' :: (text ++ '\n' :: rest))
      = some (([], key), '=' :: ' ' :: (text ++ '\n' :: rest)) :=
    key?_bare h (Text.breaks_cons (by decide)) rfl (by decide)
  have hskip : skipSpaces (' ' :: (text ++ '\n' :: rest)) = text ++ '\n' :: rest := by
    show skipSpaces (text ++ '\n' :: rest) = _
    refine skipSpaces_of_breaks ?_
    cases text with
    | nil => exact Text.breaks_cons (by decide)
    | cons c cs => exact Text.breaks_cons (hv.opens c rfl)
  have hvalue := hv.value?_append (2 * (' ' :: (text ++ '\n' :: rest)).length + 1) (depthLimit - 1)
    ('\n' :: rest) (by simp; omega) (by decide) (ends_lineFeed rest)
  rw [lines?, h.skipSpaces_append]
  split
  next he => exact absurd (List.append_eq_nil_iff.mp he).1 h.1
  next r he => exact absurd he (h.ne_cons (by decide) _ _)
  next r he => exact absurd he (h.ne_cons (by decide) _ _)
  next r he => exact absurd he (h.ne_cons (by decide) _ _)
  next r he => exact absurd he (h.ne_cons (by decide) _ _)
  next r _ he => exact absurd he (h.ne_cons (by decide) _ _)
  next =>
    rw [hkey]
    show (value? (2 * (' ' :: (text ++ '\n' :: rest)).length + 2) (depthLimit - 1)
      (skipSpaces (' ' :: (text ++ '\n' :: rest)))).bind _ = _
    rw [hskip, hvalue]
    show (o.root.alter? false (Table.insert? [] key v) o.header).bind _ = _
    rw [hroot]
    exact hlater

end Lines

/-! ## Tables -/

namespace Table

/-- A table with entries that has a definition of its own. -/
def ofEntries (entries : List (String × Entry)) : Table := ⟨false, false, entries⟩

theorem get?_new {entries : List (String × Entry)} {key : String} (h : key ∉ entries.map (·.1)) :
    (ofEntries entries).get? key = none := by
  refine List.lookup_eq_none_iff.mpr fun p hp => ?_
  rw [bne_iff_ne]
  rintro rfl
  exact h (List.mem_map_of_mem hp)

/-- A key that is not there is added at the end. -/
theorem set_new {entries : List (String × Entry)} {key : String} (h : key ∉ entries.map (·.1))
    (e : Entry) : (ofEntries entries).set key e = ofEntries (entries ++ [(key, e)]) := by
  unfold set
  rw [get?_new h]
  rfl

theorem get?_last {entries : List (String × Entry)} {key : String} (h : key ∉ entries.map (·.1))
    (e : Entry) : (ofEntries (entries ++ [(key, e)])).get? key = some e := by
  show (entries ++ [(key, e)]).lookup key = some e
  rw [List.lookup_append, show entries.lookup key = none from get?_new h, Option.none_or,
    List.lookup_cons_self]

theorem set_last {entries : List (String × Entry)} {key : String} (h : key ∉ entries.map (·.1))
    (e e' : Entry) : (ofEntries (entries ++ [(key, e)])).set key e'
      = ofEntries (entries ++ [(key, e')]) := by
  have hbefore : entries.map (fun p => if p.1 == key then (key, e') else p) = entries := by
    refine (List.map_congr_left fun p hp => ?_).trans (List.map_id _)
    refine if_neg fun hkey => h ?_
    exact List.mem_map.mpr ⟨p, hp, eq_of_beq hkey⟩
  unfold set
  rw [get?_last h, if_pos Option.isSome_some]
  show ofEntries ((entries ++ [(key, e)]).map _) = _
  rw [List.map_append, hbefore, List.map_singleton, if_pos (beq_self_eq_true key)]

/-- A section that is not there is added at the end. -/
theorem define?_new {sections : List (String × Entry)} {name : String}
    (h : name ∉ sections.map (·.1)) :
    (ofEntries sections).define? [] name
      = some (ofEntries (sections ++ [(name, .table false false [])])) := by
  unfold define? alter?
  rw [get?_new h]
  exact congrArg some (set_new h _)

/-- A key that is not there is added at the end of the last section. -/
theorem insert?_last {sections entries : List (String × Entry)} {name key : String}
    (hname : name ∉ sections.map (·.1)) (hkey : key ∉ entries.map (·.1)) (v : Toml) :
    (ofEntries (sections ++ [(name, .table false false entries)])).alter? false
        (insert? [] key v) [name]
      = some (ofEntries
          (sections ++ [(name, .table false false (entries ++ [(key, .value v)]))])) := by
  have hinsert : insert? [] key v (ofEntries entries)
      = some (ofEntries (entries ++ [(key, .value v)])) := by
    unfold insert? alter?
    rw [get?_new hkey]
    exact congrArg some (set_new hkey _)
  unfold alter?
  rw [get?_last hname]
  show (insert? [] key v (ofEntries entries)).map _ = _
  rw [hinsert]
  exact congrArg some (set_last hname _ _)

end Table

/-! ## Sections -/

/-- A line that gives a key its value. -/
structure Line where
  key : String
  text : List Char
  value : Toml
  isBareKey : IsBareKey key
  written : Written 1 text value

/-- A section with a name, in which no key is given twice. -/
structure Section where
  name : String
  lines : List Line
  isBareKey : IsBareKey name
  nodup : (lines.map (·.key)).Nodup

/-- What a line adds to a table. -/
def Line.entry (l : Line) : String × Entry := (l.key, .value l.value)

namespace Section

/-- How a section is written. -/
def text (s : Section) : List Char :=
  headerLine s.name ++ s.lines.flatMap fun l => entryLine l.key l.text

/-- What a section adds to a table. -/
def entry (s : Section) : String × Entry := (s.name, .table false false (s.lines.map Line.entry))

/-- The value of a section. -/
def toToml (s : Section) : Toml := .table (s.lines.map fun l => (l.key, l.value))

end Section

open Table (ofEntries)

/-- The lines of a section are added to it one after the other. -/
theorem readsTo_lines {sections : List (String × Entry)} {name : String}
    (hname : name ∉ sections.map (·.1)) {rest : List Char} {t : Table} (ls : List Line) :
    ∀ entries : List (String × Entry), (entries.map (·.1) ++ ls.map (·.key)).Nodup →
      ReadsTo ⟨ofEntries (sections ++ [(name, .table false false (entries ++ ls.map Line.entry))]),
        [name]⟩ rest t →
      ReadsTo ⟨ofEntries (sections ++ [(name, .table false false entries)]), [name]⟩
        (ls.flatMap (fun l => entryLine l.key l.text) ++ rest) t := by
  induction ls with
  | nil =>
    intro entries _ hrest
    simpa using hrest
  | cons l ls ih =>
    intro entries hnodup hrest
    have hkey : l.key ∉ entries.map (·.1) := fun hmem =>
      (List.nodup_append.mp hnodup).2.2 l.key hmem l.key List.mem_cons_self rfl
    rw [List.flatMap_cons, List.append_assoc]
    refine readsTo_entry l.isBareKey l.written (Table.insert?_last hname hkey l.value) ?_
    refine ih (entries ++ [l.entry]) ?_ ?_
    · rw [List.map_append, List.append_assoc]
      exact hnodup
    · rw [List.append_assoc]
      exact hrest

/-- Sections are added to a table one after the other. -/
theorem readsTo_sections (ss : List Section) :
    ∀ (sections : List (String × Entry)) (header : List String),
      (sections.map (·.1) ++ ss.map (·.name)).Nodup →
      ReadsTo ⟨ofEntries sections, header⟩ (Text.join ['\n'] (ss.map Section.text))
        (ofEntries (sections ++ ss.map Section.entry)) := by
  induction ss with
  | nil =>
    intro sections header _
    rw [List.map_nil, List.map_nil, List.append_nil]
    exact readsTo_nil
  | cons s ss ih =>
    intro sections header hnodup
    have hname : s.name ∉ sections.map (·.1) := fun hmem =>
      (List.nodup_append.mp hnodup).2.2 s.name hmem s.name List.mem_cons_self rfl
    have hsection : ∀ {rest : List Char} {t : Table},
        ReadsTo ⟨ofEntries (sections ++ [s.entry]), [s.name]⟩ rest t →
          ReadsTo ⟨ofEntries sections, header⟩ (s.text ++ rest) t := by
      intro rest t hrest
      rw [Section.text, List.append_assoc]
      refine readsTo_header s.isBareKey (Table.define?_new hname) ?_
      exact readsTo_lines hname s.lines [] (by simpa using s.nodup) hrest
    have hlater := ih (sections ++ [s.entry]) [s.name] (by
      rw [List.map_append, List.append_assoc]
      exact hnodup)
    rw [List.append_assoc] at hlater
    by_cases hnil : ss = []
    · have hlast := hsection readsTo_nil
      rw [List.append_nil] at hlast
      rw [hnil]
      exact hlast
    · rw [List.map_cons, Text.join_cons (by simpa using hnil), List.append_assoc]
      exact hsection (readsTo_blank hlater)

theorem listToToml_lines (ls : List Line) :
    Entry.listToToml (ls.map Line.entry) = ls.map fun l => (l.key, l.value) := by
  induction ls with
  | nil => rfl
  | cons l ls ih =>
    rw [List.map_cons, List.map_cons, ← ih]
    rfl

theorem toToml_sections (ss : List Section) :
    (ofEntries (ss.map Section.entry)).toToml = .table (ss.map fun s => (s.name, s.toToml)) := by
  have hentries : Entry.listToToml (ss.map Section.entry) = ss.map fun s => (s.name, s.toToml) := by
    induction ss with
    | nil => rfl
    | cons s ss ih =>
      rw [List.map_cons, List.map_cons, ← ih, Section.toToml, ← listToToml_lines]
      rfl
  exact congrArg Toml.table hentries

/-- A text of sections begins with a bracket. -/
theorem head?_sections (ss : List Section) :
    (Text.join ['\n'] (ss.map Section.text)).head? ≠ some '\uFEFF' := by
  match ss with
  | [] => exact fun h => nomatch h
  | [_] | _ :: _ :: _ => exact fun h => absurd (Option.some.inj h) (by decide)

/-- **A text of sections is read as the table of the sections.** -/
theorem read?_sections {ss : List Section} (h : (ss.map (·.name)).Nodup) :
    read? (String.ofList (Text.join ['\n'] (ss.map Section.text)))
      = some (.table (ss.map fun s => (s.name, s.toToml))) := by
  unfold read?
  rw [String.toList_ofList]
  dsimp only
  rw [if_neg (head?_sections ss)]
  have hlines := readsTo_sections ss [] [] h _ (Nat.lt_succ_self _)
  rw [List.nil_append] at hlines
  rw [← toToml_sections]
  exact congrArg (Option.map Table.toToml) hlines

end CallVicinity.Toml
