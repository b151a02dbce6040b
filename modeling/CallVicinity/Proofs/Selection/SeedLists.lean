import Mathlib.Data.Set.List
import CallVicinity.Proofs.Text.Words
import CallVicinity.Selection.Seeds

/-!
# Lists of tokens

Tokens are typed as a list with commas. What comes out of the list, whatever was typed, are words
that could be typed again one by one: no commas, no blanks around them and none of them empty
(`Seeds.isToken_of_mem`).

The other way round, tokens can be typed in many ways: with blanks of any kind around them, and with
commas that have nothing between them. Between two commas stands an entry, which is a token or
nothing, with blanks around it (`Seeds.Entry`). Every text is a listing of entries, so that this is
all there is to know about a list:

> `Seeds.parseList_laws`: a list falls apart at its commas, what comes out of it are tokens, and
> they are those of its entries, in their order.
-/

namespace CallVicinity

namespace Seeds

/-- A token of a list: not empty, without commas and without blanks around it. -/
structure IsToken (token : String) : Prop where
  ne_empty : token ≠ ""
  noComma : ',' ∉ token.toList
  noBlankFirst : ∀ c ∈ token.toList.head?, Text.isBlank c = false
  noBlankLast : ∀ c ∈ token.toList.getLast?, Text.isBlank c = false

/-- What is left between two commas without the blanks around it is a token, if anything is. -/
theorem isToken_trim {piece : List Char} (hcomma : ',' ∉ piece) (hne : Text.trim piece ≠ []) :
    IsToken (String.ofList (Text.trim piece)) := by
  refine ⟨fun he => ?_, ?_, ?_, ?_⟩
  · rw [← String.toList_inj, String.toList_ofList] at he
    exact hne he
  · rw [String.toList_ofList]
    exact fun hmem => hcomma ((Text.offEnds_trim piece).subset hmem)
  · rw [String.toList_ofList]
    exact fun c hc => Text.isBlank_of_head?_trim hc
  · rw [String.toList_ofList]
    exact fun c hc => Text.isBlank_of_getLast?_trimEnd hc

/-- **Whatever is typed, tokens come out of it.** -/
theorem isToken_of_mem {text token : String} (h : token ∈ parseList text) : IsToken token := by
  unfold parseList at h
  obtain ⟨w, hw, rfl⟩ := List.mem_map.mp h
  obtain ⟨hw, hne⟩ := List.mem_filter.mp hw
  obtain ⟨piece, hpiece, rfl⟩ := List.mem_map.mp hw
  refine isToken_trim (fun hcomma => ?_) (by simpa using hne)
  exact absurd (Text.not_mem_of_mem_pieces hpiece ',' hcomma) (by decide)

/-! ## Entries between commas -/

/-- What may stand between two commas of a list: a token or nothing, with blanks around it. -/
structure Entry where
  before : List Char
  token : Option {token : String // IsToken token}
  after : List Char
  blankBefore : Text.AllBlank before
  blankAfter : Text.AllBlank after

namespace Entry

/-- The characters of the token. -/
def core (e : Entry) : List Char := e.token.elim [] fun token => token.val.toList

/-- How the entry is typed. -/
def text (e : Entry) : List Char := e.before ++ e.core ++ e.after

theorem trim_text (e : Entry) : Text.trim e.text = e.core := by
  have hcore : e.core = [] ∨ ∃ token, IsToken token ∧ e.core = token.toList := by
    unfold core
    cases e.token with
    | none => exact Or.inl rfl
    | some token => exact Or.inr ⟨token.val, token.property, rfl⟩
  refine Text.trim_eq_of_offEnds ⟨_, _, rfl, e.blankBefore, e.blankAfter⟩ ?_ ?_
  · rcases hcore with hnil | ⟨token, htoken, heq⟩
    · rw [hnil]; exact fun c hc => absurd hc (by simp)
    · rw [heq]; exact htoken.noBlankFirst
  · rcases hcore with hnil | ⟨token, htoken, heq⟩
    · rw [hnil]; exact fun c hc => absurd hc (by simp)
    · rw [heq]; exact htoken.noBlankLast

theorem comma_not_mem_text (e : Entry) : ',' ∉ e.text := by
  have hblank : ∀ {cs : List Char}, Text.AllBlank cs → ',' ∉ cs :=
    fun hcs hmem => absurd (hcs ',' hmem) (by decide)
  have hcore : ',' ∉ e.core := by
    unfold core
    cases e.token with
    | none => exact List.not_mem_nil
    | some token => exact token.property.noComma
  simp [text, hblank e.blankBefore, hblank e.blankAfter, hcore]

/-- Between two commas stands an entry, whatever it is. -/
theorem exists_text_eq {piece : List Char} (h : ',' ∉ piece) : ∃ e : Entry, e.text = piece := by
  obtain ⟨before, after, heq, hbefore, hafter⟩ := Text.offEnds_trim piece
  by_cases hnil : Text.trim piece = []
  · rw [hnil, List.append_nil] at heq
    exact ⟨⟨before, none, after, hbefore, hafter⟩, by rw [heq]; simp [text, core]⟩
  · refine ⟨⟨before, some ⟨_, isToken_trim h hnil⟩, after, hbefore, hafter⟩, ?_⟩
    simp only [text, core, Option.elim_some, String.toList_ofList]
    exact heq.symm

end Entry

/-- The tokens of some entries. -/
def tokens (entries : List Entry) : List String := entries.filterMap fun e => e.token.map (·.val)

/-- How entries are typed one after the other. -/
def listing (entries : List Entry) : String :=
  String.ofList ([','].intercalate (entries.map Entry.text))

section Bare

/-- A token with nothing around it. -/
def Entry.bare (token : {token : String // IsToken token}) : Entry where
  before := []
  token := some token
  after := []
  blankBefore := fun _ hc => absurd hc List.not_mem_nil
  blankAfter := fun _ hc => absurd hc List.not_mem_nil

variable (words : List {token : String // IsToken token})

theorem tokens_bare : tokens (words.map Entry.bare) = words.map (·.val) := by
  rw [tokens, List.filterMap_map]
  exact congrFun List.filterMap_eq_map words

theorem listing_bare :
    listing (words.map Entry.bare) = String.intercalate "," (words.map (·.val)) := by
  have htext : ∀ word, (Entry.bare word).text = word.val.toList :=
    fun word => List.append_nil word.val.toList
  rw [← String.toList_inj, listing, String.toList_ofList, String.toList_intercalate,
    List.map_map, List.map_map]
  exact congrArg _ (List.map_congr_left fun word _ => htext word)

end Bare

/-- **A list falls apart at its commas.** -/
theorem parseList_comma (a b : String) :
    parseList (a ++ "," ++ b) = parseList a ++ parseList b := by
  have htext : (a ++ "," ++ b).toList = a.toList ++ ',' :: b.toList := by
    simp [String.toList_append]
  unfold parseList
  rw [htext, Text.pieces_eq_splitOnP, List.splitOnP_append_cons _ _ (by rfl), List.map_append,
    List.filter_append, List.map_append, Text.pieces_eq_splitOnP, Text.pieces_eq_splitOnP]

/-- The entries without a token are those of which nothing is left. -/
theorem filter_core (entries : List Entry) :
    ((entries.map Entry.core).filter fun core => !core.isEmpty).map String.ofList
      = tokens entries := by
  induction entries with
  | nil => rfl
  | cons e entries ih =>
    cases htoken : e.token with
    | none =>
      have hcore : e.core = [] := by rw [Entry.core, htoken]; rfl
      have htokens : tokens (e :: entries) = tokens entries := by
        simp [tokens, htoken]
      rw [List.map_cons, List.filter_cons_of_neg (by rw [hcore]; decide), ih, htokens]
    | some token =>
      have hcore : e.core = token.val.toList := by rw [Entry.core, htoken]; rfl
      have hne : token.val.toList ≠ [] :=
        fun he => token.property.ne_empty (String.toList_eq_nil_iff.mp he)
      have htokens : tokens (e :: entries) = token.val :: tokens entries := by
        simp [tokens, htoken]
      rw [List.map_cons, List.filter_cons_of_pos (by simpa [hcore] using hne), List.map_cons, ih,
        htokens, hcore, String.ofList_toList]

/-- **What comes out of entries are their tokens.** -/
theorem parseList_listing (entries : List Entry) :
    parseList (listing entries) = tokens entries := by
  by_cases hnil : entries = []
  · rw [hnil]
    rfl
  · have hsplit : Text.pieces (· == ',') (listing entries).toList = entries.map Entry.text := by
      rw [listing, String.toList_ofList, Text.pieces_eq_splitOnP, ← List.splitOn_eq_splitOnP]
      refine List.splitOn_intercalate ',' ?_ (by simpa using hnil)
      intro piece hpiece
      obtain ⟨e, -, rfl⟩ := List.mem_map.mp hpiece
      exact e.comma_not_mem_text
    have htrim : (entries.map Entry.text).map Text.trim = entries.map Entry.core := by
      rw [List.map_map]
      exact List.map_congr_left fun e _ => e.trim_text
    unfold parseList
    rw [hsplit, htrim, filter_core]

/-- Entries with nothing in them, and wide blanks around a token but also inside it. -/
example : parseList ",\u3000 a\u3000b\t,, ,c" = ["a\u3000b", "c"] := by decide +kernel

/-- **Every text lists entries.** -/
theorem exists_listing_eq (text : String) : ∃ entries, listing entries = text := by
  have hpieces : ∀ piece ∈ text.toList.splitOn ',', piece ∈ Set.range Entry.text := by
    intro piece hpiece
    rw [List.splitOn_eq_splitOnP, ← Text.pieces_eq_splitOnP] at hpiece
    refine Entry.exists_text_eq fun hcomma => ?_
    exact absurd (Text.not_mem_of_mem_pieces hpiece ',' hcomma) (by decide)
  obtain ⟨entries, hentries⟩ : text.toList.splitOn ',' ∈ Set.range (List.map Entry.text) := by
    rw [Set.range_list_map]
    exact hpieces
  refine ⟨entries, ?_⟩
  rw [listing, hentries, List.intercalate_splitOn, String.ofList_toList]

/-- **Lists of tokens.** A list falls apart at every comma. What comes out of it are tokens: not
empty, without commas and without blanks around them. And some tokens come out of a text exactly if
the text has them between its commas, in their order, with any blanks around them and any number of
entries with nothing but blanks among them. -/
theorem parseList_laws :
    (∀ a b : String, parseList (a ++ "," ++ b) = parseList a ++ parseList b)
    ∧ (∀ text : String, ∀ token ∈ parseList text, IsToken token)
    ∧ ∀ (text : String) (ts : List String),
        parseList text = ts ↔ ∃ entries, listing entries = text ∧ tokens entries = ts := by
  refine ⟨parseList_comma, fun text token => isToken_of_mem, fun text ts => ⟨?_, ?_⟩⟩
  · rintro rfl
    obtain ⟨entries, rfl⟩ := exists_listing_eq text
    exact ⟨entries, rfl, (parseList_listing entries).symm⟩
  · rintro ⟨entries, rfl, rfl⟩
    exact parseList_listing entries

end Seeds

end CallVicinity
