import CallVicinity.CommandLine.Run
import CallVicinity.Proofs.Document.Shown
import CallVicinity.Proofs.Host.Files
import CallVicinity.Proofs.Prompt.Questions

/-!
# What an exit code tells

A run goes through stages: a file has to be named, the settings are loaded, the source is read and
parsed, the questions are asked, the document is cut out, and its text is delivered. `Stops` and
`Prepares` say stage by stage how a run can end before it delivers, and what it then delivers where
to; `Received` says for each sink that the text arrived there.

The argument is in four parts. All stages but the last only read, so that a run that stops in one
of them leaves the host as it was (`run_cases`). Delivering fails with a failure of its sink and
with no other, and it touches that sink alone (`Host.deliver_failure`, `onlyAt_delivered`). The
stages before fail with failures of their own kinds and never with one of a sink
(`Stops.exists_wrapped`); for the cut this needs that a graph that was built has a document for
every selection. The exit code comes from a search for the failure in the chain of errors, and what
the run was doing, which stands before it in the chain, does not hide it (`Stop.Wraps.failure?_eq`).
So the exit code tells the kind of the failure, and the codes 1 and 2 tell that nothing was touched
(`run_exitCode`).
-/

namespace CallVicinity

/-! ## The failures of the stages -/

/-- A failure that has no exit code of its own. -/
def Failure.IsOther : Failure → Prop
  | .usage _ | .config _ | .malformedConfig | .parser _ | .io _ => True
  | .seeds _ | .sink _ _ | .outOfRange => False

namespace Failure

theorem exitCode_pos (f : Failure) : 0 < f.exitCode := by
  cases f <;> simp [exitCode]

theorem exitCode_le (f : Failure) : f.exitCode ≤ 3 := by
  cases f <;> simp [exitCode]

theorem IsOther.exitCode {f : Failure} (h : f.IsOther) : f.exitCode = 1 := by
  cases f with
  | usage _ | config _ | malformedConfig | parser _ | io _ => rfl
  | seeds _ | sink _ _ | outOfRange => exact h.elim

theorem exitCode_eq_two (f : Failure) : f.exitCode = 2 ↔ ∃ tokens, f = .seeds tokens := by
  cases f <;> simp [exitCode]

theorem exitCode_eq_three (f : Failure) :
    f.exitCode = 3 ↔ ∃ name reason, f = .sink name reason := by
  cases f <;> simp [exitCode]

end Failure

namespace Stop

/-- A run stops because of a failure, whatever it was doing then. -/
inductive Wraps : Stop → Failure → Prop
  | failure {f : Failure} : Wraps (.failure f) f
  | during {what : String} {s : Stop} {f : Failure} : Wraps s f → Wraps (.during what s) f

theorem exists_chain_failure (f : Failure) :
    ∃ behind, (Stop.failure f).chain = .failure f :: behind := by
  cases f with
  | io reason => exact ⟨[.system reason], rfl⟩
  | usage _ | config _ | malformedConfig | parser _ | seeds _ | sink _ _ | outOfRange =>
    exact ⟨[], rfl⟩

/-- **The search in the chain of errors finds the failure, whatever is around it.** -/
theorem Wraps.failure?_eq {s : Stop} {f : Failure} (h : s.Wraps f) : s.failure? = some f := by
  induction h with
  | @failure f =>
    obtain ⟨behind, hchain⟩ := exists_chain_failure f
    unfold failure?
    rw [hchain]
    rfl
  | @during what s f _ ih =>
    -- a context is no failure, so that the search goes on behind it
    show (Link.context what :: s.chain).findSome? Link.failure? = some f
    rw [List.findSome?_cons_of_isNone rfl]
    exact ih

theorem Wraps.exitCode_eq {s : Stop} {f : Failure} (h : s.Wraps f) :
    s.exitCode = f.exitCode := by
  unfold exitCode
  rw [h.failure?_eq]
  rfl

end Stop

theorem Failure.IsIo.isOther {f : Failure} (h : f.IsIo) : f.IsOther := by
  obtain ⟨reason, rfl⟩ := h
  trivial

theorem FileError.lift_failure {α : Type} {x : Except FileError α} {f : Failure}
    (h : FileError.lift x = .error f) : f.IsIo := by
  cases x with
  | ok a => cases h
  | error e => exact ⟨e.message, (Except.error.inj h).symm⟩

namespace Settings

theorem parse_failure {text : String} {f : Failure} (h : parse text = .error f) : f.IsOther := by
  unfold parse at h
  split at h
  next => cases h
  next =>
    obtain rfl := Except.error.inj h
    trivial

theorem load_failure {fs : Files} {path : String} {f : Failure} (h : load fs path = .error f) :
    f.IsOther := by
  unfold load at h
  cases hread : FileError.lift (fs.readText path) with
  | error e =>
    rw [hread] at h
    obtain rfl : e = f := Except.error.inj h
    exact (FileError.lift_failure hread).isOther
  | ok text =>
    rw [hread] at h
    exact parse_failure h

theorem loadOrDefault_failure {fs : Files} {path? : Option String} {f : Failure}
    (h : loadOrDefault fs path? = .error f) : f.IsOther := by
  cases path? with
  | some path =>
    rw [loadOrDefault] at h
    split at h
    next => exact load_failure h
    next =>
      obtain rfl := Except.error.inj h
      trivial
  | none =>
    rw [loadOrDefault] at h
    split at h
    next => exact load_failure h
    next => cases h

end Settings

namespace Analysis

/-- A file is read, is small enough and has a tree, or it has no analysis. -/
theorem ofFile_cases (fs : Files) (parse : Parser) (s : Settings.Parsing) (path : String) :
    (∃ src, ofFile fs parse s path = .ok (.ofSource src)) ∨
      ∃ f, ofFile fs parse s path = .error f ∧ f.IsOther := by
  unfold ofFile
  cases hread : FileError.lift (fs.readText path) with
  | error f => exact Or.inr ⟨f, rfl, (FileError.lift_failure hread).isOther⟩
  | ok text =>
    by_cases hsize : s.maxFileSize < text.utf8ByteSize
    · simp only [bind, Except.bind, if_pos hsize]
      exact Or.inr ⟨_, rfl, trivial⟩
    · simp only [bind, Except.bind, if_neg hsize]
      cases parse (s.language.resolve path) path text with
      | none => exact Or.inr ⟨_, rfl, trivial⟩
      | some tree => exact Or.inl ⟨_, rfl⟩

end Analysis

/-! ## Delivering -/

namespace Clipboard

variable {host : Host} {program : String} {arguments : List String} {text : String}
  {status : Status} {f : Failure}

theorem command_failure {configured : Option (List String)}
    (h : command host configured = .error f) : ∃ reason, f = failure reason := by
  unfold command at h
  split at h
  next => exact ⟨_, (Except.error.inj h).symm⟩
  next => cases h
  next =>
    split at h
    next => cases h
    next => exact ⟨_, (Except.error.inj h).symm⟩

theorem verdict_failure (h : verdict host program arguments text status = .error f) :
    ∃ reason, f = failure reason := by
  unfold verdict at h
  split at h
  next => exact ⟨_, (Except.error.inj h).symm⟩
  next =>
    split at h
    next => cases h
    next => exact ⟨_, (Except.error.inj h).symm⟩

/-- A text was taken where the program read all of it and ended well. -/
theorem verdict_eq_ok : verdict host program arguments text status = .ok () ↔
    host.refusal? program arguments text = none ∧ status = .exited 0 := by
  unfold verdict
  cases host.refusal? program arguments text with
  | some reason => simp
  | none => by_cases hstatus : status = .exited 0 <;> simp [hstatus]

theorem copy_failure (h : (copy host program arguments text).result = .error f) :
    ∃ reason, f = failure reason := by
  unfold copy at h
  split at h
  next => exact ⟨_, (Except.error.inj h).symm⟩
  next => exact verdict_failure h

end Clipboard

/-- **A delivery fails with a failure of its sink and with no other.** -/
theorem Host.deliver_failure {host : Host} {sink : Sink} {text : String} {f : Failure}
    (h : (host.deliver sink text).result = .error f) : ∃ reason, f = .sink sink.name reason := by
  unfold Host.deliver at h
  cases sink with
  | stdout =>
    dsimp only at h
    split at h
    next => cases h
    next => exact ⟨_, (Except.error.inj h).symm⟩
  | file path =>
    dsimp only at h
    split at h
    next => cases h
    next => exact ⟨_, (Except.error.inj h).symm⟩
  | clipboard configured =>
    dsimp only at h
    split at h
    next hcommand =>
      obtain rfl := Except.error.inj h
      exact Clipboard.command_failure hcommand
    next => exact Clipboard.copy_failure h

namespace CommandLine

/-- A run left standard output empty and the files as they were, and it started no program. -/
def Untouched (host : Host) (o : Outcome) : Prop :=
  o.stdout = "" ∧ o.files = host.files ∧ o.started = []

/-- The text of a parcel arrived at its sink: all of it was printed, or it is what the file now
reads as, or a program read all of it and ended well. -/
def Received (host : Host) (p : Parcel) (o : Outcome) : Prop :=
  match p.sink with
  | .stdout => host.print p.text = .done ∧ o.stdout = p.text
  | .file path =>
    host.files.write path p.text = .ok o.files ∧ o.files.readText path = .ok p.text
  | .clipboard configured =>
    ∃ program arguments, Clipboard.command host configured = .ok (program, arguments) ∧
      o.started = [(program, arguments)] ∧ host.refusal? program arguments p.text = none ∧
      Clipboard.start host program arguments p.text = .ok (.exited 0, o.files)

/-- A run touched nothing but the sink of a parcel: only standard output, or only one file, or only
what one program did that was started with the text. -/
def OnlyAt (host : Host) (p : Parcel) (o : Outcome) : Prop :=
  match p.sink with
  | .stdout => o.files = host.files ∧ o.started = []
  | .file path =>
    o.stdout = "" ∧ o.started = [] ∧
      (o.files = host.files ∨ host.files.write path p.text = .ok o.files ∧
        o.files.directories = host.files.directories ∧
        ∃ names, ∀ other ≠ names, o.files.get? other = host.files.get? other)
  | .clipboard configured =>
    o.stdout = "" ∧ (o.started = [] ∧ o.files = host.files ∨
      ∃ program arguments status, Clipboard.command host configured = .ok (program, arguments) ∧
        o.started = [(program, arguments)] ∧
        Clipboard.start host program arguments p.text = .ok (status, o.files))

/-- The outcome of a run that delivered a parcel. -/
def delivered (host : Host) (p : Parcel) (code : Nat) (shown : String) : Outcome :=
  let d := host.deliver p.sink p.text
  ⟨code, d.stdout, shown, d.files, d.started⟩

/-- **A text arrived exactly where its delivery did not fail.** -/
theorem received_delivered (host : Host) (p : Parcel) (code : Nat) (shown : String) :
    Received host p (delivered host p code shown) ↔
      (host.deliver p.sink p.text).result = .ok () := by
  obtain ⟨sink, text⟩ := p
  unfold Received delivered Host.deliver
  cases sink with
  | stdout =>
    dsimp only
    cases host.print text with
    | done => simp
    | cut arrived reason => simp
  | file path =>
    dsimp only
    cases hwrite : host.files.write path text with
    | error e => simp
    | ok files => simp [(Files.write_eq_ok hwrite).1]
  | clipboard configured =>
    dsimp only
    cases Clipboard.command host configured with
    | error f => simp
    | ok command =>
      obtain ⟨program, arguments⟩ := command
      dsimp only
      unfold Clipboard.copy
      cases hstart : Clipboard.start host program arguments text with
      | error e => simp
      | ok ended =>
        obtain ⟨status, files⟩ := ended
        simp [hstart, Clipboard.verdict_eq_ok]

theorem onlyAt_delivered (host : Host) (p : Parcel) (code : Nat) (shown : String) :
    OnlyAt host p (delivered host p code shown) := by
  obtain ⟨sink, text⟩ := p
  unfold OnlyAt delivered Host.deliver
  cases sink with
  | stdout =>
    dsimp only
    cases host.print text with
    | done => exact ⟨rfl, rfl⟩
    | cut arrived reason => exact ⟨rfl, rfl⟩
  | file path =>
    dsimp only
    cases hwrite : host.files.write path text with
    | error e => exact ⟨rfl, rfl, Or.inl rfl⟩
    | ok files => exact ⟨rfl, rfl, Or.inr ⟨rfl, (Files.write_eq_ok hwrite).2⟩⟩
  | clipboard configured =>
    dsimp only
    cases Clipboard.command host configured with
    | error f => exact ⟨rfl, Or.inl ⟨rfl, rfl⟩⟩
    | ok command =>
      obtain ⟨program, arguments⟩ := command
      dsimp only
      unfold Clipboard.copy
      cases hstart : Clipboard.start host program arguments text with
      | error e => exact ⟨rfl, Or.inl ⟨rfl, rfl⟩⟩
      | ok ended => exact ⟨rfl, Or.inr ⟨program, arguments, ended.1, rfl, rfl, hstart⟩⟩

/-! ## The stages before -/

/-- The settings of a command line and the analysis of the file that it names. -/
def Reads (files : Files) (parse : Parser) (a : Arguments) (settings : Settings)
    (analysis : Analysis) : Prop :=
  ∃ path, a.file = some path ∧ settingsFor files a = .ok settings ∧
    Analysis.ofFile files parse settings.parsing path = .ok analysis

/-- What is answered to the questions of a session. -/
def answers (settings : Settings) (a : Arguments) (stdin : List UInt8) : Except Failure Session :=
  (Terminal.after (Session.gather Terminal.ask settings a.seeds a.defaults) ⟨stdin, ""⟩).1

/-- The sink of a session: the clipboard where it is selected, else the file that the arguments
name, else standard output. -/
inductive Chosen (a : Arguments) (settings : Settings) (session : Session) : Sink → Prop
  | clipboard : session.clipboard = true →
      Chosen a settings session (.clipboard settings.output.clipboardCommand)
  | file {path : String} : session.clipboard = false → a.output = some path →
      Chosen a settings session (.file path)
  | stdout : session.clipboard = false → a.output = none → Chosen a settings session .stdout

/-- How a run stops before it has a text to deliver. Each stage comes after the ones before it
went well. -/
inductive Stops (files : Files) (parse : Parser) (a : Arguments) (stdin : List UInt8) : Stop → Prop
  | noFile : a.file = none → Stops files parse a stdin (.failure (.usage usage))
  | settings {path : String} {f : Failure} : a.file = some path →
      settingsFor files a = .error f →
      Stops files parse a stdin (.during "Failed to load configuration" (.failure f))
  | source {path : String} {settings : Settings} {f : Failure} : a.file = some path →
      settingsFor files a = .ok settings →
      Analysis.ofFile files parse settings.parsing path = .error f →
      Stops files parse a stdin (.during ("Failed to analyze " ++ path) (.failure f))
  | questions {settings : Settings} {analysis : Analysis} {f : Failure} :
      Reads files parse a settings analysis → answers settings a stdin = .error f →
      Stops files parse a stdin (.failure f)
  | cut {settings : Settings} {analysis : Analysis} {session : Session} {f : Failure} :
      Reads files parse a settings analysis → answers settings a stdin = .ok session →
      analysis.slice session.request session.options = .error f →
      Stops files parse a stdin (.failure f)

/-- What a run has to deliver once all stages before went well. -/
def Prepares (files : Files) (parse : Parser) (a : Arguments) (stdin : List UInt8) (p : Parcel) :
    Prop :=
  ∃ settings analysis session document, Reads files parse a settings analysis ∧
    answers settings a stdin = .ok session ∧
    analysis.slice session.request session.options = .ok document ∧
    Chosen a settings session p.sink ∧ p.text = document.render (encodingFor session)

/-- A run fails: in a stage before, whatever that stage was doing, or because its text could not be
delivered. -/
def FailsWith (host : Host) (parse : Parser) (a : Arguments) (stdin : List UInt8) (f : Failure) :
    Prop :=
  (∃ stop, Stops host.files parse a stdin stop ∧ stop.Wraps f) ∨
    ∃ p, Prepares host.files parse a stdin p ∧ (host.deliver p.sink p.text).result = .error f

section Stages

variable {files : Files} {parse : Parser} {a : Arguments} {stdin : List UInt8}
  {settings : Settings} {analysis : Analysis} {session : Session}

theorem chosen_iff {sink : Sink} :
    Chosen a settings session sink ↔ sink = sinkFor a settings session := by
  unfold sinkFor
  constructor
  · intro h
    cases h with
    | clipboard hclip => rw [if_pos hclip]
    | file hclip hpath => rw [if_neg (by simp [hclip]), hpath]
    | stdout hclip hpath => rw [if_neg (by simp [hclip]), hpath]
  · rintro rfl
    cases hclip : session.clipboard with
    | true => exact .clipboard hclip
    | false =>
      cases hpath : a.output with
      | some path => exact .file hclip hpath
      | none => exact .stdout hclip hpath

/-- What the stages before the delivery come to. -/
def prepared (files : Files) (parse : Parser) (a : Arguments) (stdin : List UInt8) :
    Except Stop Parcel :=
  (Terminal.after (prepare Terminal.ask files parse a) ⟨stdin, ""⟩).1

theorem inspect_of_reads (h : Reads files parse a settings analysis) :
    inspect files parse a = .ok (settings, analysis) := by
  obtain ⟨path, hpath, hsettings, hanalysis⟩ := h
  unfold inspect
  rw [hpath]
  dsimp only
  rw [hsettings]
  show (doing _ (Analysis.ofFile files parse settings.parsing path) >>= _) = _
  rw [hanalysis]
  rfl

theorem prepared_of_inspect {stop : Stop} (h : inspect files parse a = .error stop) :
    prepared files parse a stdin = .error stop := by
  unfold prepared prepare
  rw [Terminal.after_bind, Terminal.after_given, h]

theorem after_asking {α : Type} (x : ExceptT Failure (StateM Terminal) α) (t : Terminal) :
    Terminal.after (asking x) t = (orStop (Terminal.after x t).1, (Terminal.after x t).2) := rfl

theorem prepared_of_reads (h : Reads files parse a settings analysis) :
    prepared files parse a stdin
      = orStop (answers settings a stdin) >>= pack a settings analysis := by
  unfold prepared prepare answers
  rw [Terminal.after_bind, Terminal.after_given, inspect_of_reads h]
  dsimp only
  rw [Terminal.after_bind, after_asking]
  rcases Terminal.after (Session.gather Terminal.ask settings a.seeds a.defaults) ⟨stdin, ""⟩
    with ⟨r, t⟩
  cases r with
  | error f => rfl
  | ok session => rfl

theorem Stops.prepared {stop : Stop} (h : Stops files parse a stdin stop) :
    prepared files parse a stdin = .error stop := by
  cases h with
  | noFile hfile =>
    apply prepared_of_inspect
    unfold inspect
    rw [hfile]
  | settings hfile hsettings =>
    apply prepared_of_inspect
    unfold inspect
    rw [hfile, hsettings]
    rfl
  | @source path settings f hfile hsettings hsource =>
    apply prepared_of_inspect
    unfold inspect
    rw [hfile, hsettings]
    show (doing _ (Analysis.ofFile files parse settings.parsing path) >>= _) = _
    rw [hsource]
    rfl
  | questions hreads hanswers =>
    rw [prepared_of_reads hreads, hanswers]
    rfl
  | cut hreads hanswers hcut =>
    rw [prepared_of_reads hreads, hanswers]
    show (orStop (Analysis.slice _ _ _) >>= _) = _
    rw [hcut]
    rfl

theorem Prepares.prepared {p : Parcel} (h : Prepares files parse a stdin p) :
    prepared files parse a stdin = .ok p := by
  obtain ⟨settings, analysis, session, document, hreads, hanswers, hcut, hsink, htext⟩ := h
  obtain ⟨sink, text⟩ := p
  obtain rfl : sink = sinkFor a settings session := chosen_iff.mp hsink
  obtain rfl : text = document.render (encodingFor session) := htext
  rw [prepared_of_reads hreads, hanswers]
  show (orStop (analysis.slice _ _) >>= _) = _
  rw [hcut]
  rfl

/-- A run stops in a stage or has a text to deliver. -/
theorem stops_or_prepares (files : Files) (parse : Parser) (a : Arguments) (stdin : List UInt8) :
    (∃ stop, Stops files parse a stdin stop) ∨ ∃ p, Prepares files parse a stdin p := by
  cases hfile : a.file with
  | none => exact Or.inl ⟨_, .noFile hfile⟩
  | some path =>
    cases hsettings : settingsFor files a with
    | error f => exact Or.inl ⟨_, .settings hfile hsettings⟩
    | ok settings =>
      cases hsource : Analysis.ofFile files parse settings.parsing path with
      | error f => exact Or.inl ⟨_, .source hfile hsettings hsource⟩
      | ok analysis =>
        have hreads : Reads files parse a settings analysis := ⟨path, hfile, hsettings, hsource⟩
        cases hanswers : answers settings a stdin with
        | error f => exact Or.inl ⟨_, .questions hreads hanswers⟩
        | ok session =>
          cases hcut : analysis.slice session.request session.options with
          | error f => exact Or.inl ⟨_, .cut hreads hanswers hcut⟩
          | ok document =>
            exact Or.inr ⟨⟨sinkFor a settings session, document.render (encodingFor session)⟩,
              settings, analysis, session, document, hreads, hanswers, hcut, chosen_iff.mpr rfl,
              rfl⟩

theorem settingsFor_failure {f : Failure} (h : settingsFor files a = .error f) : f.IsOther := by
  unfold settingsFor at h
  cases hload : Settings.loadOrDefault files a.config with
  | error e =>
    rw [hload] at h
    obtain rfl : e = f := Except.error.inj h
    exact Settings.loadOrDefault_failure hload
  | ok settings =>
    rw [hload] at h
    cases hlanguage : a.language <;> simp only [hlanguage] at h <;> cases h

theorem Reads.exists_source (h : Reads files parse a settings analysis) :
    ∃ src, analysis = .ofSource src := by
  obtain ⟨path, -, -, hanalysis⟩ := h
  rcases Analysis.ofFile_cases files parse settings.parsing path with ⟨src, hsrc⟩ | ⟨f, hf, -⟩
  · exact ⟨src, Except.ok.inj (hanalysis.symm.trans hsrc)⟩
  · rw [hf] at hanalysis
    cases hanalysis

/-- **The stages before the delivery fail with failures of tokens and with such as have no exit code
of their own, but never with one of a sink.** -/
theorem Stops.exists_wrapped {stop : Stop} (h : Stops files parse a stdin stop) :
    ∃ f, stop.Wraps f ∧ (f.IsOther ∨ ∃ tokens, f = .seeds tokens) := by
  cases h with
  | noFile hfile => exact ⟨_, .failure, Or.inl trivial⟩
  | settings hfile hsettings => exact ⟨_, .during .failure, Or.inl (settingsFor_failure hsettings)⟩
  | @source path settings f hfile hsettings hsource =>
    refine ⟨f, .during .failure, Or.inl ?_⟩
    rcases Analysis.ofFile_cases files parse settings.parsing path with ⟨src, hsrc⟩ | ⟨e, he, hkind⟩
    · rw [hsrc] at hsource
      cases hsource
    · rw [he] at hsource
      obtain rfl : e = f := Except.error.inj hsource
      exact hkind
  | @questions settings analysis f hreads hanswers =>
    refine ⟨f, .failure, ?_⟩
    rcases Session.gather_failsOnly Terminal.ask_sound _ _ _ _ _ hanswers with hio | hseeds
    · exact Or.inl hio.isOther
    · exact Or.inr ⟨[], hseeds⟩
  | @cut settings analysis session f hreads hanswers hcut =>
    refine ⟨f, .failure, ?_⟩
    -- the graph of an analysis has a document for every selection
    obtain ⟨src, rfl⟩ := hreads.exists_source
    rcases Analysis.slice_cases src session.request session.options with
      ⟨-, hseeds⟩ | ⟨document, hdocument⟩
    · rw [hseeds] at hcut
      exact Or.inr ⟨_, (Except.error.inj hcut).symm⟩
    · rw [hdocument] at hcut
      cases hcut

end Stages

/-! ## Runs -/

section Runs

variable {host : Host} {parse : Parser} {a : Arguments} {stdin : List UInt8}

theorem Stops.failsWith_iff {stop : Stop} (h : Stops host.files parse a stdin stop) {f : Failure}
    (hf : stop.Wraps f) (f' : Failure) : FailsWith host parse a stdin f' ↔ f' = f := by
  constructor
  · rintro (⟨stop', h', hf'⟩ | ⟨p, hp, -⟩)
    · obtain rfl : stop = stop' := Except.error.inj (h.prepared.symm.trans h'.prepared)
      exact Option.some.inj (hf'.failure?_eq.symm.trans hf.failure?_eq)
    · cases h.prepared.symm.trans hp.prepared
  · rintro rfl
    exact Or.inl ⟨stop, h, hf⟩

theorem Prepares.failsWith_iff {p : Parcel} (h : Prepares host.files parse a stdin p)
    (f : Failure) :
    FailsWith host parse a stdin f ↔ (host.deliver p.sink p.text).result = .error f := by
  constructor
  · rintro (⟨stop, h', -⟩ | ⟨p', hp', hf⟩)
    · cases h.prepared.symm.trans h'.prepared
    · obtain rfl : p = p' := Except.ok.inj (h.prepared.symm.trans hp'.prepared)
      exact hf
  · intro hf
    exact Or.inr ⟨p, h, hf⟩

variable (host parse a stdin)

/-- **How a run ends.** It stops in a stage and leaves all as it was, or it delivers its text and
ends as the delivery does. -/
theorem run_cases :
    (∃ stop shown, Stops host.files parse a stdin stop ∧
      run host parse a stdin = ⟨stop.exitCode, "", shown, host.files, []⟩) ∨
    ∃ p shown, Prepares host.files parse a stdin p ∧
      ((host.deliver p.sink p.text).result = .ok () ∧
          run host parse a stdin = delivered host p 0 shown ∨
        ∃ f, (host.deliver p.sink p.text).result = .error f ∧
          run host parse a stdin = delivered host p f.exitCode shown) := by
  unfold run
  rcases hafter : (prepare Terminal.ask host.files parse a).run.run ⟨stdin, ""⟩ with ⟨r, terminal⟩
  have hprepared : prepared host.files parse a stdin = r := by
    unfold prepared Terminal.after
    rw [hafter]
  rcases stops_or_prepares host.files parse a stdin with ⟨stop, hstop⟩ | ⟨p, hp⟩
  · obtain rfl : r = .error stop := hprepared.symm.trans hstop.prepared
    exact Or.inl ⟨stop, _, hstop, rfl⟩
  · obtain rfl : r = .ok p := hprepared.symm.trans hp.prepared
    dsimp only
    cases hresult : (host.deliver p.sink p.text).result with
    | ok u => exact Or.inr ⟨p, _, hp, Or.inl ⟨hresult, rfl⟩⟩
    | error f =>
      refine Or.inr ⟨p, terminal.shown ++ (Stop.failure f).line, hp, Or.inr ⟨f, hresult, ?_⟩⟩
      dsimp only
      rw [Stop.Wraps.failure.exitCode_eq]
      rfl

/-- A run delivers its text, or it fails in one way: before it touched anything, or because of its
sink. -/
theorem run_arrives_or_fails :
    (run host parse a stdin).exitCode = 0 ∧ (∀ f, ¬ FailsWith host parse a stdin f) ∧
        (∃ p, Prepares host.files parse a stdin p ∧ Received host p (run host parse a stdin) ∧
          OnlyAt host p (run host parse a stdin)) ∨
      ∃ f, (∀ f', FailsWith host parse a stdin f' ↔ f' = f) ∧
        (run host parse a stdin).exitCode = f.exitCode ∧
        (∀ p, Prepares host.files parse a stdin p → ¬ Received host p (run host parse a stdin)) ∧
        ((f.IsOther ∨ ∃ tokens, f = .seeds tokens) ∧ Untouched host (run host parse a stdin) ∨
          (∃ name reason, f = .sink name reason) ∧
            ∃ p, Prepares host.files parse a stdin p ∧ OnlyAt host p (run host parse a stdin)) := by
  rcases run_cases host parse a stdin with
    ⟨stop, shown, hstop, hrun⟩ | ⟨p, shown, hp, ⟨hok, hrun⟩ | ⟨f, hf, hrun⟩⟩
  · obtain ⟨f, hf, hkind⟩ := hstop.exists_wrapped
    rw [hrun]
    refine Or.inr ⟨f, hstop.failsWith_iff hf, hf.exitCode_eq, ?_, ?_⟩
    · intro p hp
      cases hstop.prepared.symm.trans hp.prepared
    · exact Or.inl ⟨hkind, rfl, rfl, rfl⟩
  · rw [hrun]
    refine Or.inl ⟨rfl, ?_, p, hp, ?_, onlyAt_delivered host p 0 shown⟩
    · intro f hf
      rw [hp.failsWith_iff, hok] at hf
      cases hf
    · exact (received_delivered host p 0 shown).mpr hok
  · rw [hrun]
    refine Or.inr ⟨f, ?_, rfl, ?_, ?_⟩
    · intro f'
      rw [hp.failsWith_iff, hf]
      exact ⟨fun h => (Except.error.inj h).symm, fun h => by rw [h]⟩
    · intro p' hp' hreceived
      obtain rfl : p = p' := Except.ok.inj (hp.prepared.symm.trans hp'.prepared)
      rw [received_delivered, hf] at hreceived
      cases hreceived
    · obtain ⟨reason, rfl⟩ := Host.deliver_failure hf
      exact Or.inr ⟨⟨_, reason, rfl⟩, p, hp, onlyAt_delivered host p _ shown⟩

/-- **What an exit code tells.** A run exits with 0 exactly if its text arrived at the sink that was
chosen, with 2 exactly if it fails because tokens stand for nothing, with 3 exactly if it fails
because of its sink, and with 1 exactly if it fails in another way. No run touches more than the one
sink that was chosen, and one that exits with 1 or 2 touches nothing. -/
theorem run_exitCode :
    ((run host parse a stdin).exitCode = 0 ↔ ∃ p, Prepares host.files parse a stdin p ∧
      Received host p (run host parse a stdin)) ∧
    ((run host parse a stdin).exitCode = 1 ↔ ∃ f, FailsWith host parse a stdin f ∧ f.IsOther) ∧
    ((run host parse a stdin).exitCode = 2 ↔
      ∃ tokens, FailsWith host parse a stdin (.seeds tokens)) ∧
    ((run host parse a stdin).exitCode = 3 ↔
      ∃ name reason, FailsWith host parse a stdin (.sink name reason)) ∧
    (run host parse a stdin).exitCode ≤ 3 ∧
    (Untouched host (run host parse a stdin) ∨
      ∃ p, Prepares host.files parse a stdin p ∧ OnlyAt host p (run host parse a stdin)) ∧
    ((run host parse a stdin).exitCode = 1 ∨ (run host parse a stdin).exitCode = 2 →
      Untouched host (run host parse a stdin)) := by
  rcases run_arrives_or_fails host parse a stdin with
    ⟨hcode, hno, p, hp, hreceived, honly⟩ | ⟨f, hf, hcode, hno, hkind⟩
  · rw [hcode]
    refine ⟨⟨fun _ => ⟨p, hp, hreceived⟩, fun _ => rfl⟩, ?_, ?_, ?_, Nat.zero_le 3,
      Or.inr ⟨p, hp, honly⟩, ?_⟩
    · exact ⟨fun h => absurd h (by decide), fun ⟨f, hf, _⟩ => (hno f hf).elim⟩
    · exact ⟨fun h => absurd h (by decide), fun ⟨tokens, hf⟩ => (hno _ hf).elim⟩
    · exact ⟨fun h => absurd h (by decide), fun ⟨name, reason, hf⟩ => (hno _ hf).elim⟩
    · exact fun h => absurd h (by decide)
  · rw [hcode]
    simp only [hf]
    refine ⟨?_, ?_, ?_, ?_, f.exitCode_le, ?_, ?_⟩
    · exact ⟨fun h => absurd h (Nat.ne_of_gt f.exitCode_pos), fun ⟨p, hp, hr⟩ => (hno p hp hr).elim⟩
    · refine ⟨fun h => ⟨f, rfl, ?_⟩, ?_⟩
      · rcases hkind with ⟨hother | hseeds, -⟩ | ⟨hsink, -⟩
        · exact hother
        · exact absurd (h.symm.trans (f.exitCode_eq_two.mpr hseeds)) (by decide)
        · exact absurd (h.symm.trans (f.exitCode_eq_three.mpr hsink)) (by decide)
      · rintro ⟨f', rfl, hother⟩
        exact hother.exitCode
    · rw [f.exitCode_eq_two]
      exact exists_congr fun tokens => eq_comm
    · rw [f.exitCode_eq_three]
      exact exists_congr fun name => exists_congr fun reason => eq_comm
    · rcases hkind with ⟨-, huntouched⟩ | ⟨-, honly⟩
      · exact Or.inl huntouched
      · exact Or.inr honly
    · intro h
      rcases hkind with ⟨-, huntouched⟩ | ⟨hsink, -⟩
      · exact huntouched
      · rw [f.exitCode_eq_three.mpr hsink] at h
        exact absurd h (by decide)

end Runs

end CommandLine

end CallVicinity
