import CallVicinity.Proofs.Prompt.Defaults

/-!
# Each question has its line

Questions are put to a terminal one after the other, and a terminal has nothing but bytes to answer
them. The bytes fall into lines (`Terminal.lines`), and the questions go through the lines one by
one: a question takes exactly the first line that is left, be it blank, no text at all or not there
any more (`Terminal.line_eq_and_lines_afterLine`). So neither a failure nor a default moves a later
question to another line:

> `Terminal.askAll_aligned`: the answer to a question comes from the line with its number alone, and
> what is shown are the prompts. A session without seeds takes seven lines, and one more where
> children are left out.

For sessions the number of questions is not fixed. `Terminal.Asks` says of any questions how many of
them are asked where they come out at a value, and is put together question by question
(`Terminal.Asks.bind`).
-/

namespace CallVicinity

namespace Terminal

open Text (bytes)

/-! ## Lines of an input -/

/-- The lines of an input, each with the line feed that ends it; the last one may have none. -/
def lines : List UInt8 → List (List UInt8)
  | [] => []
  | b :: bs =>
    if b = lineFeed then [b] :: lines bs
    else match lines bs with
      | [] => [[b]]
      | l :: ls => (b :: l) :: ls

/-- The line with a number, without its end; a line past the end is empty. -/
def lineAt (input : List UInt8) (k : Nat) : List UInt8 := line ((lines input).getD k [])

theorem lines_lineFeed {x : List UInt8} (hx : lineFeed ∉ x) (y : List UInt8) :
    lines (x ++ lineFeed :: y) = (x ++ [lineFeed]) :: lines y := by
  induction x with
  | nil => rw [List.nil_append, lines, if_pos rfl]; rfl
  | cons b x ih =>
    obtain ⟨hb, hx⟩ := not_or.mp (mt List.mem_cons.mpr hx)
    rw [List.cons_append, lines, if_neg (Ne.symm hb), ih hx]
    rfl

/-- An input without line feeds is one line, if it is not empty. -/
theorem lines_unended {x : List UInt8} (hx : lineFeed ∉ x) (hne : x ≠ []) : lines x = [x] := by
  induction x with
  | nil => exact absurd rfl hne
  | cons b x ih =>
    obtain ⟨hb, hx⟩ := not_or.mp (mt List.mem_cons.mpr hx)
    rw [lines, if_neg (Ne.symm hb)]
    by_cases hnil : x = []
    · rw [hnil]; rfl
    · rw [ih hx hnil]

/-- **The lines of an input are all of it.** -/
theorem flatten_lines (input : List UInt8) : (lines input).flatten = input := by
  induction input with
  | nil => rfl
  | cons b bs ih =>
    rw [lines]
    split
    next => rw [List.flatten_cons, ih]; rfl
    next =>
      split
      next hnil => rw [← ih, hnil]; rfl
      next l ls hcons => rw [← ih, hcons]; rfl

/-- A terminal reads the first line and leaves the others. -/
theorem line_eq_and_lines_afterLine (input : List UInt8) :
    line input = lineAt input 0 ∧ lines (afterLine input) = (lines input).drop 1 := by
  by_cases hmem : lineFeed ∈ input
  · obtain ⟨x, y, rfl, hx⟩ := List.eq_append_cons_of_mem hmem
    have hall := forall_bne_of_not_mem hx
    have hline : ∀ r, line (x ++ lineFeed :: r) = x := by
      intro r
      rw [line, List.takeWhile_append_of_pos hall, List.takeWhile_cons_of_neg (by simp),
        List.append_nil]
    rw [lineAt, lines_lineFeed hx, afterLine, List.dropWhile_append_of_pos hall]
    exact ⟨(hline y).trans (hline []).symm, rfl⟩
  · have hafter : afterLine input = [] := by
      rw [afterLine, List.dropWhile_eq_nil_iff.mpr (forall_bne_of_not_mem hmem)]
      rfl
    by_cases hnil : input = []
    · rw [hnil]
      exact ⟨rfl, rfl⟩
    · rw [lineAt, hafter, lines_unended hmem hnil]
      exact ⟨rfl, rfl⟩

theorem lines_iterate (input : List UInt8) (n : Nat) :
    lines (afterLine^[n] input) = (lines input).drop n := by
  induction n generalizing input with
  | zero => rfl
  | succ n ih =>
    rw [Function.iterate_succ_apply, ih, (line_eq_and_lines_afterLine input).2, List.drop_drop,
      Nat.add_comm]

theorem lineAt_afterLine (input : List UInt8) (k : Nat) :
    lineAt (afterLine input) k = lineAt input (k + 1) := by
  rw [lineAt, lineAt, (line_eq_and_lines_afterLine input).2, List.getD_eq_getElem?_getD,
    List.getD_eq_getElem?_getD, List.getElem?_drop, Nat.add_comm]

/-- What is left of an input where its first `n` lines, or all it has, were read. -/
structure Consumed (n : Nat) (input rest : List UInt8) : Prop where
  input_eq : input = ((lines input).take n).flatten ++ rest
  lines_eq : lines rest = (lines input).drop n

theorem consumed_iterate (input : List UInt8) (n : Nat) :
    Consumed n input (afterLine^[n] input) where
  input_eq := by
    rw [← flatten_lines (afterLine^[n] input), lines_iterate, ← List.flatten_append,
      List.take_append_drop, flatten_lines]
  lines_eq := lines_iterate input n

/-- Where an input has `n` lines, as many are missing afterwards. -/
theorem Consumed.length_eq {n : Nat} {input rest : List UInt8} (h : Consumed n input rest)
    (hn : n ≤ (lines input).length) : (lines input).length = n + (lines rest).length := by
  rw [h.lines_eq, List.length_drop]
  omega

/-! ## Questions one after the other -/

namespace Query

/-- What a line answers. -/
def reply (q : Query) (line : List UInt8) : Except Failure String :=
  match String.fromUTF8? ⟨line.toArray⟩ with
  | some typed => .ok (answer typed q.default)
  | none => .error (.io FileError.notText.message)

/-- The rules for answers: what was typed without the blanks around it, the default where nothing
else was typed, and a failure where the line is no text. -/
inductive Answers (q : Query) : List UInt8 → Except Failure String → Prop where
  | typed {cs : List Char} (h : Text.trim cs ≠ []) :
    Answers q (bytes cs) (.ok (String.ofList (Text.trim cs)))
  | blank {cs : List Char} (h : Text.trim cs = []) : Answers q (bytes cs) (.ok (q.default.getD ""))
  | notText {line : List UInt8} (h : ∀ cs, line ≠ bytes cs) :
    Answers q line (.error (.io "stream did not contain valid UTF-8"))

theorem answers_reply (q : Query) (line : List UInt8) : q.Answers line (q.reply line) := by
  by_cases h : ∃ cs, line = bytes cs
  · obtain ⟨cs, rfl⟩ := h
    rw [reply, fromUTF8?_bytes]
    dsimp only
    rw [answer, String.toList_ofList]
    by_cases hblank : Text.trim cs = []
    · rw [hblank]
      exact .blank hblank
    · rw [if_neg (by simpa using hblank)]
      exact .typed hblank
  · have hnone : String.fromUTF8? ⟨line.toArray⟩ = none := by
      refine dif_neg fun hvalid => h ?_
      -- bytes that can be read are those of the text that is read
      refine ⟨(String.ofByteArray ⟨line.toArray⟩ hvalid).toList, ?_⟩
      rw [← toUTF8_toList]
      rfl
    rw [reply, hnone]
    exact .notText (not_exists.mp h)

end Query

/-- Asks questions one after the other, also after one that failed. -/
def askAll (qs : List Query) : StateM Terminal (List (Except Failure String)) :=
  qs.mapM fun q => (ask q.text q.default).run

/-- The terminal after some questions. -/
def asked (t : Terminal) (qs : List Query) : Terminal :=
  ⟨afterLine^[qs.length] t.input, t.shown ++ prompts qs⟩

theorem asked_nil (t : Terminal) : t.asked [] = t := by
  show Terminal.mk t.input (t.shown ++ "") = t
  rw [String.append_empty]

theorem asked_append (t : Terminal) (qs qs' : List Query) :
    t.asked (qs ++ qs') = (t.asked qs).asked qs' := by
  unfold asked
  rw [prompts_append, String.append_assoc, List.length_append, Nat.add_comm,
    Function.iterate_add_apply]

/-- A question is answered by the first line and is a question that was asked. -/
theorem after_ask_eq (q : Query) (t : Terminal) :
    after (ask q.text q.default) t = (q.reply (lineAt t.input 0), t.asked [q]) := by
  rw [after_ask, (line_eq_and_lines_afterLine t.input).1]
  show (q.reply _, Terminal.mk _ (t.shown ++ q.prompt)) = (_, ⟨_, t.shown ++ (q.prompt ++ "")⟩)
  rw [String.append_empty]
  rfl

/-- **Every question is answered by the line with its number.** -/
theorem askAll_eq (qs : List Query) (t : Terminal) :
    (askAll qs).run t = (qs.mapIdx fun k q => q.reply (lineAt t.input k), t.asked qs) := by
  induction qs generalizing t with
  | nil => rw [asked_nil]; rfl
  | cons q qs ih =>
    have hstep : (askAll (q :: qs)).run t
        = ((after (ask q.text q.default) t).1
            :: ((askAll qs).run (after (ask q.text q.default) t).2).1,
          ((askAll qs).run (after (ask q.text q.default) t).2).2) := by
      unfold askAll
      rw [List.mapM_cons]
      rfl
    have hlater : ∀ k, lineAt (t.asked [q]).input k = lineAt t.input (k + 1) :=
      lineAt_afterLine t.input
    rw [hstep, after_ask_eq, ih, List.mapIdx_cons, ← asked_append]
    simp only [hlater, List.singleton_append]

/-! ## How many questions are asked -/

/-- Questions that, where they come out at a value, are as many as goes with the value. -/
def Asks {α : Type} (R : α → Nat → Prop) (x : ExceptT Failure (StateM Terminal) α) : Prop :=
  ∀ t a t', after x t = (.ok a, t') → ∃ qs, R a qs.length ∧ t' = t.asked qs

section Asks

variable {α β : Type} {R : β → Nat → Prop}

theorem Asks.pure {b : β} (h : R b 0) : Asks R (Pure.pure b) := by
  intro t b' t' hafter
  cases hafter
  exact ⟨[], h, (asked_nil t).symm⟩

theorem Asks.bind {S : α → Nat → Prop} {x : ExceptT Failure (StateM Terminal) α}
    {next : α → ExceptT Failure (StateM Terminal) β} (hx : Asks S x)
    (hnext : ∀ a n, S a n → Asks (fun b m => R b (n + m)) (next a)) : Asks R (x >>= next) := by
  intro t b t'' h
  rw [after_bind] at h
  rcases hafter : after x t with ⟨r, t'⟩
  rw [hafter] at h
  cases r with
  | error e => cases h
  | ok a =>
    obtain ⟨qs, hS, rfl⟩ := hx t a t' hafter
    obtain ⟨qs', hR, rfl⟩ := hnext a _ hS _ _ _ h
    exact ⟨qs ++ qs', by rwa [List.length_append], (asked_append t qs qs').symm⟩

theorem asks_ask (question : String) (default : Option String) :
    Asks (fun _ n => n = 1) (ask question default) := by
  intro t a t' h
  rw [after_ask_eq ⟨question, default⟩] at h
  exact ⟨[⟨question, default⟩], rfl, (Prod.mk.inj h).2.symm⟩

/-- What is made of an answer asks no more. -/
theorem Asks.map {x : ExceptT Failure (StateM Terminal) α} (f : α → β)
    (hx : Asks (fun _ n => n = 1) x) :
    Asks (fun _ n => n = 1) (do return f (← x)) :=
  hx.bind fun _ n hn => .pure (by rw [hn])

end Asks

end Terminal

namespace Session

open Terminal (Asks asks_ask)

theorem askRadius_asks (question : String) (default : Nat) :
    Asks (fun _ n => n = 1) (askRadius Terminal.ask question default) :=
  (asks_ask _ _).map _

theorem askYesNo_asks (question : String) (default : Bool) :
    Asks (fun _ n => n = 1) (askYesNo Terminal.ask question default) :=
  (asks_ask _ _).map _

theorem askRefMode_asks (default : RefMode) :
    Asks (fun _ n => n = 1) (askRefMode Terminal.ask default) :=
  (asks_ask _ _).map _

/-- The number of questions of a session, where its seeds are asked for as well. -/
def questionCount (session : Session) : Nat := if session.options.includeChildren then 7 else 8

theorem gatherOptions_asks (s : Settings) (seeds : List String) :
    Asks (fun session n => 1 + n = session.questionCount)
      (gatherOptions Terminal.ask s seeds) := by
  have hrest : ∀ (R : Session → Nat → Prop) (finish : RefMode → Bool → Bool → Session),
      (∀ mode pretty clipboard, R (finish mode pretty clipboard) 3) →
      Asks R (do
        let mode ← askRefMode Terminal.ask s.output.refMode
        let pretty ← askYesNo Terminal.ask "Pretty-print the JSON output?" s.output.pretty
        let clipboard ← askYesNo Terminal.ask
          "Copy the output to the clipboard instead of stdout?" s.output.clipboard
        return finish mode pretty clipboard) := by
    intro R finish h
    refine (askRefMode_asks _).bind ?_
    rintro mode _ rfl
    refine (askYesNo_asks _ _).bind ?_
    rintro pretty _ rfl
    refine (askYesNo_asks _ _).bind ?_
    rintro clipboard _ rfl
    exact .pure (h mode pretty clipboard)
  refine (askRadius_asks _ _).bind ?_
  rintro full _ rfl
  refine (askRadius_asks _ _).bind ?_
  rintro context _ rfl
  refine (askYesNo_asks _ _).bind ?_
  rintro children _ rfl
  -- the number of children is a question only where the children are left out
  cases children with
  | true =>
    refine (Asks.pure (R := fun _ n => n = 0) rfl).bind ?_
    rintro count _ rfl
    exact hrest _ _ fun _ _ _ => rfl
  | false =>
    refine (askYesNo_asks _ _).bind ?_
    rintro count _ rfl
    exact hrest _ _ fun _ _ _ => rfl

theorem gather_asks (s : Settings) :
    Asks (fun session n => n = session.questionCount) (gather Terminal.ask s none false) := by
  refine (asks_ask _ _).bind ?_
  rintro typed _ rfl
  by_cases hempty : (Seeds.parseList typed).isEmpty = true
  · simp only [if_pos hempty]
    intro t session t' h
    cases h
  · simp only [if_neg hempty]
    exact gatherOptions_asks s _

end Session

namespace Terminal

/-- **Each question has its line.** Questions that are put to a terminal one after the other are
answered by the line with their number alone, by the rules for answers, and a failure is that of its
own question. The prompts are shown one after the other, and the input that is left is the lines
behind those of the questions. So a session that has to ask for its seeds takes exactly as many
lines as it has questions, if there are as many: seven, and one more where children are left out. -/
theorem askAll_aligned (t : Terminal) :
    (∀ qs : List Query, ∃ rest,
      (askAll qs).run t
          = (qs.mapIdx fun k q => q.reply (lineAt t.input k), ⟨rest, t.shown ++ prompts qs⟩)
        ∧ Consumed qs.length t.input rest)
    ∧ (∀ (q : Query) (line : List UInt8), q.Answers line (q.reply line))
    ∧ ∀ (s : Settings) (session : Session) (t' : Terminal),
      after (Session.gather ask s none false) t = (.ok session, t') →
        let n := if session.options.includeChildren then 7 else 8
        Consumed n t.input t'.input
          ∧ (n ≤ (lines t.input).length →
            (lines t.input).length = n + (lines t'.input).length) := by
  refine ⟨fun qs => ⟨_, askAll_eq qs t, consumed_iterate t.input qs.length⟩,
    Query.answers_reply, ?_⟩
  intro s session t' h
  obtain ⟨qs, hlength, rfl⟩ := Session.gather_asks s t session t' h
  have hconsumed : Consumed session.questionCount t.input (t.asked qs).input :=
    hlength ▸ consumed_iterate t.input qs.length
  exact ⟨hconsumed, hconsumed.length_eq⟩

/-- Eight lines for a session that leaves children out, and a byte behind them that is no text. -/
def longTyped : Terminal where
  input := " run,go\r\n\n3\nno\n\nid\n \nmaybe\n".toUTF8.data.toList ++ [0xFF]
  shown := ""

theorem askAll_aligned_longTyped :
    ∃ (session : Session) (t' : Terminal),
      after (Session.gather ask {} none false) longTyped = (.ok session, t')
      ∧ session.options.includeChildren = false
      ∧ 8 ≤ (lines longTyped.input).length
      ∧ (lines longTyped.input).length = 8 + (lines t'.input).length
      ∧ lines t'.input = [[0xFF]]
      ∧ (⟨"Seeds", some "main"⟩ : Query).Answers [0xFF]
        (.error (.io "stream did not contain valid UTF-8")) := by
  have hchildren : (after (Session.gather ask {} none false) longTyped).1.toOption.map
      (·.options.includeChildren) = some false := by decide +kernel
  have hlines : 8 ≤ (lines longTyped.input).length := by decide +kernel
  have hrest : (lines longTyped.input).drop 8 = [[0xFF]] := by decide +kernel
  rcases hafter : after (Session.gather ask {} none false) longTyped with ⟨r, t'⟩
  rw [hafter] at hchildren
  cases r with
  | error e => cases hchildren
  | ok session =>
    replace hchildren : session.options.includeChildren = false := Option.some.inj hchildren
    have haligned := (askAll_aligned longTyped).2.2 {} session t' hafter
    rw [hchildren] at haligned
    refine ⟨session, t', rfl, hchildren, hlines, haligned.2 hlines, ?_, ?_⟩
    · rw [haligned.1.lines_eq]
      exact hrest
    · exact (askAll_aligned longTyped).2.1 ⟨"Seeds", some "main"⟩ [0xFF]

end Terminal

end CallVicinity
