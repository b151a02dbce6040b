import CallVicinity.Prompt.Session

/-!
# Questions on a terminal

Questions are asked one after the other, and each of them sees the terminal that the one before it
left (`Terminal.after_bind`). A question can only fail because what was typed is no text, and the
questions of a session besides because no seeds were typed (`Session.gather_failsOnly`). A failure
of questions that follow one another is a failure of one of them, so this is said once for asking
and then follows from how the questions are put together (`FailsOnly.bind`).
-/

namespace CallVicinity

/-! ## One after the other -/

namespace Terminal

variable {ε α β : Type}

/-- What questions give on a terminal, and the terminal after them. -/
def after (x : ExceptT ε (StateM Terminal) α) (t : Terminal) : Except ε α × Terminal :=
  x.run.run t

theorem after_bind (x : ExceptT ε (StateM Terminal) α) (next : α → ExceptT ε (StateM Terminal) β)
    (t : Terminal) :
    after (x >>= next) t
      = match after x t with
        | (.ok a, t') => after (next a) t'
        | (.error e, t') => (.error e, t') := by
  show (match after x t with | (r, t') => ExceptT.bindCont next r t') = _
  rcases after x t with ⟨r, t'⟩
  cases r with
  | error e => rfl
  | ok a => rfl

/-- A question shows its prompt and takes one line, whether the line is a text or not. -/
theorem after_ask (question : String) (default : Option String) (t : Terminal) :
    after (ask question default) t
      = ((match String.fromUTF8? ⟨(line t.input).toArray⟩ with
          | some typed => .ok (answer typed default)
          | none => .error (.io FileError.notText.message)),
        ⟨afterLine t.input, t.shown ++ prompt question default⟩) := by
  show after (match String.fromUTF8? ⟨(line t.input).toArray⟩ with
    | some typed => (pure (answer typed default) : ExceptT Failure (StateM Terminal) String)
    | none => throw (.io FileError.notText.message))
      ⟨afterLine t.input, t.shown ++ prompt question default⟩ = _
  cases String.fromUTF8? ⟨(line t.input).toArray⟩ with
  | none => rfl
  | some typed => rfl

/-- A question that may have a default. -/
structure Query where
  text : String
  default : Option String

/-- The text that asks the question. -/
def Query.prompt (q : Query) : String := Terminal.prompt q.text q.default

/-- The texts that ask questions one after the other. -/
def prompts (qs : List Query) : String := qs.foldr (fun q text => q.prompt ++ text) ""

theorem prompts_append (qs qs' : List Query) :
    prompts (qs ++ qs') = prompts qs ++ prompts qs' := by
  unfold prompts
  induction qs with
  | nil => exact String.empty_append.symm
  | cons q qs ih => rw [List.cons_append, List.foldr_cons, List.foldr_cons, ih, String.append_assoc]

/-- What is known already is no question. -/
theorem after_given (r : Except ε α) (t : Terminal) : after (ExceptT.mk (pure r)) t = (r, t) := rfl

end Terminal

/-! ## Failures -/

/-- Questions that fail, whatever is typed, only with failures of a kind. -/
def FailsOnly {α : Type} (kind : Failure → Prop) (x : ExceptT Failure (StateM Terminal) α) :
    Prop :=
  ∀ t f, (Terminal.after x t).1 = .error f → kind f

section FailsOnly

variable {α β : Type} {kind kind' : Failure → Prop}

theorem FailsOnly.imp {x : ExceptT Failure (StateM Terminal) α} (hx : FailsOnly kind x)
    (h : ∀ f, kind f → kind' f) : FailsOnly kind' x :=
  fun t f hf => h f (hx t f hf)

theorem FailsOnly.pure (a : α) : FailsOnly kind (Pure.pure a) := by
  intro t f h
  cases h

theorem FailsOnly.throw {f : Failure} (hf : kind f) :
    FailsOnly kind (throw f : ExceptT Failure (StateM Terminal) α) := by
  intro t f' h
  cases h
  exact hf

theorem FailsOnly.bind {x : ExceptT Failure (StateM Terminal) α}
    {next : α → ExceptT Failure (StateM Terminal) β} (hx : FailsOnly kind x)
    (hnext : ∀ a, FailsOnly kind (next a)) : FailsOnly kind (x >>= next) := by
  intro t f h
  rw [Terminal.after_bind] at h
  rcases hafter : Terminal.after x t with ⟨r, t'⟩
  rw [hafter] at h
  cases r with
  | error e =>
    obtain rfl : e = f := Except.error.inj h
    exact hx t e (by rw [hafter])
  | ok a => exact hnext a t' f h

end FailsOnly

/-- A failure of reading or writing. -/
def Failure.IsIo (f : Failure) : Prop := ∃ reason, f = .io reason

/-- A way to ask that fails only where something cannot be read. -/
def Prompter.Sound (ask : Prompter (StateM Terminal)) : Prop :=
  ∀ question default, FailsOnly Failure.IsIo (ask question default)

theorem Terminal.ask_sound : Prompter.Sound Terminal.ask := by
  intro question default t f h
  rw [Terminal.after_ask] at h
  dsimp only at h
  split at h
  next => cases h
  next => exact ⟨_, (Except.error.inj h).symm⟩

theorem Prompter.acceptDefault_sound : Prompter.Sound Prompter.acceptDefault := by
  intro question default
  exact FailsOnly.pure _

namespace Session

variable {ask : Prompter (StateM Terminal)} (hask : ask.Sound)
include hask

theorem askRadius_failsOnly (question : String) (default : Nat) :
    FailsOnly Failure.IsIo (askRadius ask question default) :=
  (hask _ _).bind fun _ => .pure _

theorem askYesNo_failsOnly (question : String) (default : Bool) :
    FailsOnly Failure.IsIo (askYesNo ask question default) :=
  (hask _ _).bind fun _ => .pure _

theorem askRefMode_failsOnly (default : RefMode) :
    FailsOnly Failure.IsIo (askRefMode ask default) :=
  (hask _ _).bind fun _ => .pure _

theorem gatherOptions_failsOnly (s : Settings) (seeds : List String) :
    FailsOnly Failure.IsIo (gatherOptions ask s seeds) := by
  refine (askRadius_failsOnly hask _ _).bind fun full => ?_
  refine (askRadius_failsOnly hask _ _).bind fun context => ?_
  refine (askYesNo_failsOnly hask _ _).bind fun children => ?_
  -- the number of children is asked for, or not, and then the rest in any case
  have hrest : ∀ finish : RefMode → Bool → Bool → Session, FailsOnly Failure.IsIo (do
      let mode ← askRefMode ask s.output.refMode
      let pretty ← askYesNo ask "Pretty-print the JSON output?" s.output.pretty
      let clipboard ← askYesNo ask "Copy the output to the clipboard instead of stdout?"
        s.output.clipboard
      return finish mode pretty clipboard) := by
    intro finish
    refine (askRefMode_failsOnly hask _).bind fun mode => ?_
    refine (askYesNo_failsOnly hask _ _).bind fun pretty => ?_
    refine (askYesNo_failsOnly hask _ _).bind fun clipboard => ?_
    exact .pure _
  cases children with
  | true => exact (FailsOnly.pure _).bind fun count => hrest _
  | false => exact (askYesNo_failsOnly hask _ _).bind fun count => hrest _

/-- **A session fails where something that was typed is no text, or where no seeds are given.** -/
theorem gather_failsOnly (s : Settings) (preset : Option String) (acceptDefaults : Bool) :
    FailsOnly (fun f => f.IsIo ∨ f = .seeds []) (gather ask s preset acceptDefaults) := by
  have hrest : ∀ seeds, FailsOnly (fun f => f.IsIo ∨ f = .seeds [])
      (gatherOptions (if acceptDefaults then Prompter.acceptDefault else ask) s seeds) := by
    intro seeds
    refine FailsOnly.imp ?_ fun f hf => Or.inl hf
    cases acceptDefaults with
    | true => exact gatherOptions_failsOnly Prompter.acceptDefault_sound s seeds
    | false => exact gatherOptions_failsOnly hask s seeds
  have hseeds : ∀ typed, FailsOnly (fun f => f.IsIo ∨ f = .seeds []) (do
      if (Seeds.parseList typed).isEmpty then throw (.seeds [])
      gatherOptions (if acceptDefaults then Prompter.acceptDefault else ask) s
        (Seeds.parseList typed)) := by
    intro typed
    by_cases hempty : (Seeds.parseList typed).isEmpty = true
    · simp only [if_pos hempty]
      exact FailsOnly.bind (.throw (Or.inr rfl)) fun _ => hrest _
    · simp only [if_neg hempty]
      exact hrest _
  cases preset with
  | some seeds => exact (FailsOnly.pure _).bind hseeds
  | none => exact FailsOnly.bind ((hask _ _).imp fun f hf => Or.inl hf) hseeds

end Session

end CallVicinity
