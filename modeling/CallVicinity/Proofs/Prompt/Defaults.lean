import CallVicinity.Proofs.Graph.IdForms
import CallVicinity.Proofs.Host.Files
import CallVicinity.Proofs.Prompt.Questions
import CallVicinity.Proofs.Selection.SeedLists
import CallVicinity.Proofs.Text.Positions

/-!
# Answers that make no sense

A session asks for its settings with the configured ones as defaults. A default is shown as text and
goes the same way as an answer: it is read by the parser of its question. So three things have to
fit together where nothing sensible is typed. A default is read back as it was
(`Session.radius?_repr` for numbers). An answer that is no answer leaves the default. And each
question has a line of the input to itself, of which there is one less in front of the next
question, whatever was on it (`Session.Keeps.bind`).

> `Session.gather_defaults`: a session in which no line answers its question is the one that accepts
> the defaults; and any session whatsoever asks for sensible radii and tokens.
-/

namespace CallVicinity

/-! ## Lines of a text -/

namespace Text

/-- The line with a number; a line past the end is empty. -/
def lineAt (cs : List Char) (k : Nat) : List Char := (pieces (· == '\n') cs).getD k []

/-- The text behind the first line. -/
def laterLines (cs : List Char) : List Char := (cs.dropWhile (· != '\n')).drop 1

theorem laterLines_line {x : List Char} (hx : '\n' ∉ x) : laterLines x = [] := by
  rw [laterLines, List.dropWhile_eq_nil_iff.mpr (forall_bne_of_not_mem hx)]
  rfl

theorem laterLines_lineFeed {x : List Char} (hx : '\n' ∉ x) (y : List Char) :
    laterLines (x ++ '\n' :: y) = y := by
  rw [laterLines, List.dropWhile_append_of_pos (forall_bne_of_not_mem hx)]
  rfl

theorem lineAt_line {x : List Char} (hx : '\n' ∉ x) : lineAt x 0 = x := by
  rw [lineAt, pieces_lineFeed, splitOn_line hx]
  rfl

theorem lineAt_lineFeed {x : List Char} (hx : '\n' ∉ x) (y : List Char) :
    lineAt (x ++ '\n' :: y) 0 = x := by
  rw [lineAt, pieces_lineFeed, splitOn_lineFeed, splitOn_line hx]
  rfl

theorem lineAt_laterLines (cs : List Char) (k : Nat) :
    lineAt (laterLines cs) k = lineAt cs (k + 1) := by
  unfold lineAt
  induction cs using lines_induction with
  | hline x hx =>
    rw [laterLines_line hx, pieces_lineFeed x, splitOn_line hx]
    cases k <;> rfl
  | hmore x y hx _ =>
    rw [laterLines_lineFeed hx, pieces_lineFeed, pieces_lineFeed, splitOn_lineFeed, splitOn_line hx]
    rfl

theorem lineAt_iterate (cs : List Char) (n k : Nat) :
    lineAt (laterLines^[n] cs) k = lineAt cs (n + k) := by
  induction n generalizing cs with
  | zero => rw [Nat.zero_add]; rfl
  | succ n ih => rw [Function.iterate_succ_apply, ih, lineAt_laterLines]; congr 1; omega

end Text

namespace Terminal

open Text (bytes lineAt laterLines)

theorem lineFeed_not_mem_bytes {x : List Char} (hx : '\n' ∉ x) : lineFeed ∉ bytes x := by
  intro h
  obtain ⟨c, hc, hbyte⟩ := List.mem_flatMap.mp h
  refine Text.lineFeed_not_mem_utf8 ?_ hbyte
  rintro rfl
  exact hx hc

/-- A terminal takes the first line of a text and leaves the others. -/
theorem line_bytes (cs : List Char) :
    line (bytes cs) = bytes (lineAt cs 0) ∧ afterLine (bytes cs) = bytes (laterLines cs) := by
  induction cs using Text.lines_induction with
  | hline x hx =>
    have hall := forall_bne_of_not_mem (lineFeed_not_mem_bytes hx)
    rw [Text.lineAt_line hx, Text.laterLines_line hx]
    refine ⟨List.takeWhile_eq_self_iff.mpr hall, ?_⟩
    rw [afterLine, List.dropWhile_eq_nil_iff.mpr hall]
    rfl
  | hmore x y hx _ =>
    have hall := forall_bne_of_not_mem (lineFeed_not_mem_bytes hx)
    have hbytes : bytes (x ++ '\n' :: y) = bytes x ++ lineFeed :: bytes y := List.flatMap_append
    rw [Text.lineAt_lineFeed hx, Text.laterLines_lineFeed hx, hbytes]
    constructor
    · rw [line, List.takeWhile_append_of_pos hall, List.takeWhile_cons_of_neg (by simp),
        List.append_nil]
    · rw [afterLine, List.dropWhile_append_of_pos hall]
      rfl

theorem toUTF8_toList (text : String) : text.toUTF8.data.toList = bytes text.toList := by
  conv => lhs; rw [← String.ofList_toList (s := text)]
  rw [String.toUTF8_eq_toByteArray, String.toByteArray_ofList, List.utf8Encode,
    List.data_toByteArray]
  rfl

/-- What was typed as a text is read as that text. -/
theorem fromUTF8?_bytes (cs : List Char) :
    String.fromUTF8? ⟨(bytes cs).toArray⟩ = some (String.ofList cs) := by
  have hbytes : (⟨(bytes cs).toArray⟩ : ByteArray) = (String.ofList cs).toUTF8 := by
    refine ByteArray.ext (Array.toList_inj.mp ?_)
    rw [toUTF8_toList, String.toList_ofList]
  rw [hbytes, fromUTF8?_toUTF8]

/-- On a text, a question takes the first line of it. -/
theorem after_ask_bytes (question : String) (default : Option String) (cs : List Char)
    (shown : String) :
    after (ask question default) ⟨bytes cs, shown⟩
      = (.ok (answer (String.ofList (lineAt cs 0)) default),
        ⟨bytes (laterLines cs), shown ++ prompt question default⟩) := by
  obtain ⟨hline, hafter⟩ := line_bytes cs
  rw [after_ask, hline, hafter, fromUTF8?_bytes]

end Terminal

namespace Session

open Text (bytes lineAt laterLines)

/-! ## Defaults as answers -/

/-- **A radius is read back**, if it can be typed at all. -/
theorem radius?_repr (n : Nat) : radius? n.repr = if n < radiusLimit then some n else none := by
  have hsign : ∀ cs, n.repr.toList ≠ '+' :: cs := by
    intro cs h
    have hmark : '+' ∉ n.repr.toList := not_mem_repr rfl
    exact hmark (h ▸ List.mem_cons_self)
  have hempty : n.repr.toList.isEmpty = false := by
    rw [Nat.toList_repr, List.isEmpty_eq_false_iff]
    exact Nat.toDigits_ne_nil
  have hall : n.repr.toList.all Char.isDigit = true :=
    List.all_eq_true.mpr fun c => isDigit_of_mem_repr
  have hvalue : n.repr.toList.foldl (fun n d => 10 * n + (d.toNat - 0x30)) 0 = n := by
    rw [Nat.toList_repr]
    exact Nat.ofDigitChars_ten_toDigits
  -- by `hsign` there is no sign to take off
  simp only [radius?, hempty, hall, hvalue]
  rfl

theorem radius?_default (n : Nat) : (radius? n.repr).getD n = n := by
  rw [radius?_repr]
  split <;> rfl

theorem yesNo?_default (b : Bool) : (yesNo? (yesNo b)).getD b = b := by
  cases b <;> decide +kernel

theorem refMode?_default (mode : RefMode) :
    (RefMode.ofName? (RefMode.typed mode.toName)).getD mode = mode := by
  cases mode <;> decide +kernel

/-- What a session asks for, where the settings say what a default is. -/
structure Question where
  query : Terminal.Query
  /-- Whether a text is an answer. -/
  understands : String → Bool

namespace Question

/-- The question for a value that is written and read in one way. -/
def ofDefault {α : Type} (write : α → String) (read? : String → Option α) (text : String)
    (default : α) : Question :=
  ⟨⟨text, some (write default)⟩, fun answer => (read? answer).isSome⟩

def ofRadius : String → Nat → Question := ofDefault Nat.repr radius?

def ofYesNo : String → Bool → Question := ofDefault yesNo yesNo?

def ofRefMode : String → RefMode → Question :=
  ofDefault RefMode.toName fun answer => RefMode.ofName? (RefMode.typed answer)

/-- A line that does not answer the question: it is blank, or it makes no sense as an answer. -/
def Unanswered (q : Question) (line : List Char) : Prop :=
  Text.trim line = [] ∨ q.understands (String.ofList (Text.trim line)) = false

instance (q : Question) (line : List Char) : Decidable (q.Unanswered line) :=
  inferInstanceAs (Decidable (_ ∨ _))

end Question

/-- The questions of a session with the settings as defaults. The number of children is asked for
only where the children are left out. -/
def questions (s : Settings) : List Question :=
  [.ofRadius "Full-detail radius" s.slicing.fullRadius,
    .ofRadius "Structural-context radius (at least the full-detail radius)"
      s.slicing.contextRadius,
    .ofYesNo "Include children in output tree?" s.output.includeChildren]
  ++ (if s.output.includeChildren then []
    else [.ofYesNo "Include a child count instead?" s.output.includeChildCount])
  ++ [.ofRefMode "Call reference display (id | name | both)" s.output.refMode,
    .ofYesNo "Pretty-print the JSON output?" s.output.pretty,
    .ofYesNo "Copy the output to the clipboard instead of stdout?" s.output.clipboard]

/-- No line of a text answers the question with its number. -/
def Unanswered (qs : List Question) (cs : List Char) : Prop :=
  ∀ (k : Nat) (q : Question), qs[k]? = some q → q.Unanswered (lineAt cs k)

instance (qs : List Question) (cs : List Char) : Decidable (Unanswered qs cs) :=
  decidable_of_iff (∀ p ∈ qs.zipIdx, p.1.Unanswered (lineAt cs p.2))
    ⟨fun h k q hq => h (q, k) (List.mk_mem_zipIdx_iff_getElem?.mpr hq),
      fun h p hp => h p.2 p.1 (List.mk_mem_zipIdx_iff_getElem?.mp hp)⟩

/-- The session that the settings ask for. -/
def ofSettings (s : Settings) (seeds : List String) : Session where
  request := ⟨seeds, s.slicing.fullRadius, max s.slicing.contextRadius s.slicing.fullRadius⟩
  options := {
    includeChildren := s.output.includeChildren
    includeChildCount := s.output.includeChildCount
    refMode := s.output.refMode
    structuralFields := s.output.structuralFields }
  pretty := s.output.pretty
  clipboard := s.output.clipboard

/-! ## Questions that come out at their defaults -/

/-- Questions that come out at a value on every text of which no line answers its question. Each of
them is shown and takes its line. -/
def Keeps {α : Type} (qs : List Question) (x : ExceptT Failure (StateM Terminal) α) (a : α) :
    Prop :=
  ∀ cs shown, Unanswered qs cs → Terminal.after x ⟨bytes cs, shown⟩
    = (.ok a, ⟨bytes (laterLines^[qs.length] cs), shown ++ Terminal.prompts (qs.map (·.query))⟩)

section Keeps

variable {α β : Type}

theorem Keeps.pure (a : α) : Keeps [] (Pure.pure a) a := by
  intro cs shown _
  show (Except.ok a, Terminal.mk (bytes cs) shown) = (.ok a, ⟨bytes cs, shown ++ ""⟩)
  rw [String.append_empty]

theorem Keeps.bind {qs qs' : List Question} {x : ExceptT Failure (StateM Terminal) α}
    {next : α → ExceptT Failure (StateM Terminal) β} {a : α} {b : β} (hx : Keeps qs x a)
    (hnext : Keeps qs' (next a) b) : Keeps (qs ++ qs') (x >>= next) b := by
  intro cs shown h
  have hqs : Unanswered qs cs := by
    intro k q hq
    refine h k q ?_
    rw [List.getElem?_append_left (List.getElem?_eq_some_iff.mp hq).1]
    exact hq
  have hqs' : Unanswered qs' (laterLines^[qs.length] cs) := by
    intro k q hq
    rw [Text.lineAt_iterate]
    refine h _ q ?_
    rw [List.getElem?_append_right (by omega), Nat.add_sub_cancel_left]
    exact hq
  rw [Terminal.after_bind, hx cs shown hqs]
  dsimp only
  rw [hnext _ _ hqs', List.map_append, Terminal.prompts_append, String.append_assoc,
    List.length_append, Nat.add_comm, Function.iterate_add_apply]

/-- A question whose default is read back keeps it. -/
theorem Keeps.ask (write : α → String) (read? : String → Option α) {a : α}
    (hread : (read? (write a)).getD a = a) (text : String) :
    Keeps [.ofDefault write read? text a]
      (do return (read? (← Terminal.ask text (some (write a)))).getD a) a := by
  intro cs shown h
  have hanswer : (read? (Terminal.answer (String.ofList (lineAt cs 0)) (some (write a)))).getD a
      = a := by
    unfold Terminal.answer
    rw [String.toList_ofList]
    rcases h 0 _ rfl with hblank | hnone
    · rw [hblank]
      exact hread
    · dsimp only
      split
      · exact hread
      · rw [Option.not_isSome_iff_eq_none.mp (Bool.eq_false_iff.mp hnone)]
        rfl
  rw [Terminal.after_bind, Terminal.after_ask_bytes]
  show (Except.ok ((read? _).getD a), Terminal.mk (bytes (laterLines cs)) _)
    = (.ok a, ⟨bytes (laterLines cs), shown ++ (Terminal.prompt text (some (write a)) ++ "")⟩)
  rw [hanswer, String.append_empty]

end Keeps

theorem askRadius_keeps (question : String) (n : Nat) :
    Keeps [.ofRadius question n] (askRadius Terminal.ask question n) n :=
  .ask Nat.repr radius? (radius?_default n) question

theorem askYesNo_keeps (question : String) (b : Bool) :
    Keeps [.ofYesNo question b] (askYesNo Terminal.ask question b) b :=
  .ask yesNo yesNo? (yesNo?_default b) question

theorem askRefMode_keeps (mode : RefMode) :
    Keeps [.ofRefMode "Call reference display (id | name | both)" mode]
      (askRefMode Terminal.ask mode) mode :=
  .ask RefMode.toName (fun answer => RefMode.ofName? (RefMode.typed answer))
    (refMode?_default mode) _

/-- **Questions that are not answered give what the settings ask for.** -/
theorem gatherOptions_keeps (s : Settings) (seeds : List String) :
    Keeps (questions s) (gatherOptions Terminal.ask s seeds) (ofSettings s seeds) := by
  have hrest : ∀ finish : RefMode → Bool → Bool → Session,
      Keeps [.ofRefMode "Call reference display (id | name | both)" s.output.refMode,
          .ofYesNo "Pretty-print the JSON output?" s.output.pretty,
          .ofYesNo "Copy the output to the clipboard instead of stdout?" s.output.clipboard]
        (do
          let mode ← askRefMode Terminal.ask s.output.refMode
          let pretty ← askYesNo Terminal.ask "Pretty-print the JSON output?" s.output.pretty
          let clipboard ← askYesNo Terminal.ask
            "Copy the output to the clipboard instead of stdout?" s.output.clipboard
          return finish mode pretty clipboard)
        (finish s.output.refMode s.output.pretty s.output.clipboard) := by
    intro finish
    refine (askRefMode_keeps _).bind ?_
    refine (askYesNo_keeps _ _).bind ?_
    refine (askYesNo_keeps _ _).bind ?_
    exact .pure _
  unfold questions gatherOptions ofSettings
  refine (askRadius_keeps _ _).bind ?_
  refine (askRadius_keeps _ _).bind ?_
  refine (askYesNo_keeps _ _).bind ?_
  cases s.output.includeChildren with
  | true => exact (Keeps.pure _).bind (hrest _)
  | false => exact (askYesNo_keeps _ _).bind (hrest _)

/-! ## Accepted defaults -/

section AcceptDefault

variable {m : Type → Type} [Monad m] [LawfulMonad m]

theorem ask_acceptDefault {α : Type} (write : α → String) (read? : String → Option α) {a : α}
    (hread : (read? (write a)).getD a = a) (text : String) :
    (do return (read? (← Prompter.acceptDefault text (some (write a)))).getD a :
      ExceptT Failure m α) = pure a := by
  unfold Prompter.acceptDefault
  rw [pure_bind, Option.getD_some, hread]

theorem askRadius_acceptDefault (question : String) (n : Nat) :
    askRadius (m := m) Prompter.acceptDefault question n = pure n :=
  ask_acceptDefault Nat.repr radius? (radius?_default n) question

theorem askYesNo_acceptDefault (question : String) (b : Bool) :
    askYesNo (m := m) Prompter.acceptDefault question b = pure b :=
  ask_acceptDefault yesNo yesNo? (yesNo?_default b) question

theorem askRefMode_acceptDefault (mode : RefMode) :
    askRefMode (m := m) Prompter.acceptDefault mode = pure mode :=
  ask_acceptDefault RefMode.toName (fun answer => RefMode.ofName? (RefMode.typed answer))
    (refMode?_default mode) _

/-- **Accepting the defaults gives what the settings ask for**, without a question. -/
theorem gatherOptions_acceptDefault (s : Settings) (seeds : List String) :
    gatherOptions (m := m) Prompter.acceptDefault s seeds = pure (ofSettings s seeds) := by
  unfold gatherOptions ofSettings
  simp only [askRadius_acceptDefault, askYesNo_acceptDefault, askRefMode_acceptDefault, pure_bind,
    ite_self]

end AcceptDefault

/-- With seeds that are preset, only the rest is asked for. -/
theorem gather_preset {m : Type → Type} [Monad m] [LawfulMonad m] (ask : Prompter m)
    (s : Settings) {preset : String} (h : Seeds.parseList preset ≠ []) (acceptDefaults : Bool) :
    gather ask s (some preset) acceptDefaults
      = gatherOptions (if acceptDefaults then Prompter.acceptDefault else ask) s
        (Seeds.parseList preset) := by
  unfold gather
  simp only [pure_bind, List.isEmpty_iff, if_neg h]

/-! ## What every session asks for -/

/-- Questions that give, whatever is typed, only values with a property. -/
def Yields {α : Type} (P : α → Prop) (x : ExceptT Failure (StateM Terminal) α) : Prop :=
  ∀ t a, (Terminal.after x t).1 = .ok a → P a

section Yields

variable {α β : Type} {P : β → Prop}

theorem Yields.pure {b : β} (h : P b) : Yields P (Pure.pure b) := by
  intro t b' hb
  cases hb
  exact h

theorem Yields.bind (x : ExceptT Failure (StateM Terminal) α)
    {next : α → ExceptT Failure (StateM Terminal) β} (hnext : ∀ a, Yields P (next a)) :
    Yields P (x >>= next) := by
  intro t b h
  rw [Terminal.after_bind] at h
  rcases hafter : Terminal.after x t with ⟨r, t'⟩
  rw [hafter] at h
  cases r with
  | error e => cases h
  | ok a => exact hnext a t' b h

end Yields

/-- The outline reaches as far as the full texts, and there are seeds, each of them a token. -/
structure Sensible (session : Session) : Prop where
  fullRadius_le : session.request.fullRadius ≤ session.request.contextRadius
  seeds_ne_nil : session.request.seeds ≠ []
  isToken : ∀ seed ∈ session.request.seeds, Seeds.IsToken seed

theorem gatherOptions_yields (ask : Prompter (StateM Terminal)) (s : Settings) {seeds : List String}
    (hne : seeds ≠ []) (htokens : ∀ seed ∈ seeds, Seeds.IsToken seed) :
    Yields Sensible (gatherOptions ask s seeds) := by
  refine .bind _ fun full => .bind _ fun context => .bind _ fun children => ?_
  have hdone : ∀ session : Session, session.request = ⟨seeds, full, max context full⟩ →
      Sensible session := by
    intro session h
    constructor <;> rw [h]
    exacts [Nat.le_max_right _ _, hne, htokens]
  cases children with
  | true =>
    exact .bind _ fun _ => .bind _ fun _ => .bind _ fun _ => .bind _ fun _ => .pure (hdone _ rfl)
  | false =>
    exact .bind _ fun _ => .bind _ fun _ => .bind _ fun _ => .bind _ fun _ => .pure (hdone _ rfl)

/-- **Whatever is typed, a session is sensible.** -/
theorem gather_yields (ask : Prompter (StateM Terminal)) (s : Settings) (preset : Option String)
    (acceptDefaults : Bool) : Yields Sensible (gather ask s preset acceptDefaults) := by
  have hseeds : ∀ typed, Yields Sensible (do
      if (Seeds.parseList typed).isEmpty then throw (.seeds [])
      gatherOptions (if acceptDefaults then Prompter.acceptDefault else ask) s
        (Seeds.parseList typed)) := by
    intro typed
    by_cases hempty : (Seeds.parseList typed).isEmpty = true
    · simp only [if_pos hempty]
      intro t session h
      cases h
    · simp only [if_neg hempty]
      exact gatherOptions_yields _ s (fun h => hempty (List.isEmpty_iff.mpr h))
        fun seed => Seeds.isToken_of_mem
  cases preset with
  | some seeds => exact .bind _ hseeds
  | none => exact .bind _ hseeds

/-! ## Sessions without answers -/

/-- **A session in which no line answers its question is the one that accepts the defaults**: what
the settings ask for, where the outline reaches as far as the full texts in any case. With the
defaults accepted nothing is shown and nothing is read; otherwise every question is shown and takes
one line. And whatever is typed, not only texts, a session that comes about has an outline that
reaches as far as the full texts, and seeds, each of them a token. -/
theorem gather_defaults (s : Settings) :
    (∀ preset text shown : String, Seeds.parseList preset ≠ [] →
      Unanswered (questions s) text.toList →
      Terminal.after (gather Terminal.ask s (some preset) true) ⟨text.toUTF8.data.toList, shown⟩
          = (.ok (ofSettings s (Seeds.parseList preset)), ⟨text.toUTF8.data.toList, shown⟩)
        ∧ Terminal.after (gather Terminal.ask s (some preset) false)
            ⟨text.toUTF8.data.toList, shown⟩
          = (.ok (ofSettings s (Seeds.parseList preset)),
            ⟨bytes (laterLines^[(questions s).length] text.toList),
              shown ++ Terminal.prompts ((questions s).map (·.query))⟩))
    ∧ ∀ preset acceptDefaults t session,
      (Terminal.after (gather Terminal.ask s preset acceptDefaults) t).1 = .ok session →
        session.Sensible := by
  refine ⟨?_, ?_⟩
  · intro preset text shown hne hlines
    rw [gather_preset _ _ hne, gather_preset _ _ hne, Terminal.toUTF8_toList]
    refine ⟨?_, gatherOptions_keeps s _ _ shown hlines⟩
    rw [if_pos rfl, gatherOptions_acceptDefault]
    rfl
  · intro preset acceptDefaults t session h
    exact gather_yields _ _ _ _ t session h

/-- Settings with the largest radius. -/
def wideRadius : Settings where
  slicing := { fullRadius := radiusLimit - 1 }
  output := { includeChildren := false }

/-- Seven questions and five lines, of which the first one is a radius that is too large by one and
the second one is blank. -/
def senseless : String := "18446744073709551616\n \r\nperhaps\n+\nids"

theorem gather_defaults_wideRadius :
    ∃ session,
      Seeds.parseList " run, ,go" ≠ []
      ∧ Unanswered (questions wideRadius) senseless.toList
      ∧ (Terminal.after (gather Terminal.ask wideRadius (some " run, ,go") true)
          ⟨senseless.toUTF8.data.toList, ""⟩).1 = .ok session
      ∧ (Terminal.after (gather Terminal.ask wideRadius (some " run, ,go") false)
          ⟨senseless.toUTF8.data.toList, ""⟩).1 = .ok session
      ∧ session.request = ⟨["run", "go"], radiusLimit - 1, radiusLimit - 1⟩
      ∧ session.Sensible := by
  have hseeds : Seeds.parseList " run, ,go" = ["run", "go"] := by decide +kernel
  have hne : Seeds.parseList " run, ,go" ≠ [] := by rw [hseeds]; exact List.cons_ne_nil _ _
  have hlines : Unanswered (questions wideRadius) senseless.toList := by decide +kernel
  obtain ⟨htrue, hfalse⟩ := (gather_defaults wideRadius).1 _ _ "" hne hlines
  refine ⟨_, hne, hlines, congrArg _ htrue, congrArg _ hfalse, ?_, ?_⟩
  · rw [hseeds]
    rfl
  · exact (gather_defaults wideRadius).2 _ _ _ _ (congrArg _ hfalse)

end Session

end CallVicinity
