import CallVicinity.Host.Store
import CallVicinity.Proofs.Host.Files
import CallVicinity.Proofs.Toml.Sections

/-!
# Saved settings are loaded again

Settings are saved as three sections (`Settings.sections`). What the sections say is read off the
written text by the reader for TOML, which knows nothing about settings (`Toml.read?_sections`), and
taken for settings again field by field (`Settings.ofToml?_sections`). A field that is not written
has its default when it is loaded; the only one of that kind is a clipboard command that is not set,
for which this is the default.

> `Settings.load_save`: settings whose counts have at most 63 bits, and whose clipboard command has
> no control characters and no single quotes, can be saved, and what is loaded afterwards are the
> same settings.
-/

namespace CallVicinity

namespace Toml

theorem Written.mono {depth depth' : Nat} {text : List Char} {v : Toml} (h : Written depth text v)
    (hle : depth ≤ depth') : Written depth' text v where
  opens := h.opens
  value?_append fuel room rest hfuel hroom hrest :=
    h.value?_append fuel room rest hfuel (Nat.le_trans hle hroom) hrest

namespace Line

/-- The line of a count. -/
def ofNat (key : String) (hkey : IsBareKey key) (n : Nat) (h : n < 0x8000000000000000) : Line :=
  ⟨key, n.repr.toList, .integer n, hkey, (written_nat h).mono (Nat.zero_le 1)⟩

/-- The line of a truth value. -/
def ofBool (key : String) (hkey : IsBareKey key) (b : Bool) : Line :=
  ⟨key, boolText b, .boolean b, hkey, (written_bool b).mono (Nat.zero_le 1)⟩

/-- The line of a string. -/
def ofString (key : String) (hkey : IsBareKey key) (s : String) (h : IsPlain s) : Line :=
  ⟨key, stringText s, .string s, hkey, (written_string h).mono (Nat.zero_le 1)⟩

/-- The line of a list of strings. -/
def ofList (key : String) (hkey : IsBareKey key) (ss : List String) (h : ∀ s ∈ ss, IsPlain s) :
    Line :=
  ⟨key, arrayText ss, .array (ss.map .string), hkey, written_array h⟩

end Line

end Toml

open Toml (Line Section)

/-! ## Words for choices -/

theorem Dialect.isPlain_toName (d : Dialect) : Toml.IsPlain d.toName := by
  cases d <;> decide +kernel

theorem RefMode.isPlain_toName (mode : RefMode) : Toml.IsPlain mode.toName := by
  cases mode <;> decide +kernel

theorem StructuralField.isPlain_toName (field : StructuralField) :
    Toml.IsPlain field.toName := by
  cases field <;> decide +kernel

theorem Dialect.ofName?_toName (d : Dialect) : ofName? d.toName = some d := by
  cases d <;> decide +kernel

theorem RefMode.ofName?_toName (mode : RefMode) : ofName? mode.toName = some mode := by
  cases mode <;> decide +kernel

theorem StructuralField.ofName?_toName (field : StructuralField) :
    ofName? field.toName = some field := by
  cases field <;> decide +kernel

namespace Settings

/-! ## Settings as sections -/

/-- Settings that can be written and read again. -/
structure Storable (s : Settings) : Prop where
  counts_lt : ∀ n ∈ s.counts, n < 0x8000000000000000
  command_isPlain : ∀ command ∈ s.output.clipboardCommand, ∀ word ∈ command, Toml.IsPlain word

/-- The section of how files are read. -/
def Parsing.toSection (p : Parsing) (h : p.maxFileSize < 0x8000000000000000) : Section where
  name := "parsing"
  lines := [
    .ofNat "max_file_size" (by decide +kernel) p.maxFileSize h,
    .ofString "language" (by decide +kernel) p.language.toName p.language.isPlain_toName]
  isBareKey := by decide +kernel
  nodup := by
    show ["max_file_size", "language"].Nodup
    decide

/-- The section of how far a selection goes. -/
def Slicing.toSection (r : Slicing) (hfull : r.fullRadius < 0x8000000000000000)
    (hcontext : r.contextRadius < 0x8000000000000000) : Section where
  name := "slicing"
  lines := [
    .ofNat "full_radius" (by decide +kernel) r.fullRadius hfull,
    .ofNat "context_radius" (by decide +kernel) r.contextRadius hcontext]
  isBareKey := by decide +kernel
  nodup := by
    show ["full_radius", "context_radius"].Nodup
    decide

/-- The line of the clipboard command, if there is one. -/
def commandLines : (command : Option (List String)) →
    (∀ words ∈ command, ∀ word ∈ words, Toml.IsPlain word) → List Line
  | none, _ => []
  | some words, h => [.ofList "clipboard_command" (by decide +kernel) words (h words rfl)]

theorem map_key_commandLines (command : Option (List String))
    (h : ∀ words ∈ command, ∀ word ∈ words, Toml.IsPlain word) :
    (commandLines command h).map (·.key)
      = if command.isSome then ["clipboard_command"] else [] := by
  cases command with
  | none => rfl
  | some words => rfl

theorem flatMap_commandLines (command : Option (List String))
    (h : ∀ words ∈ command, ∀ word ∈ words, Toml.IsPlain word) :
    (commandLines command h).flatMap (fun l => Toml.entryLine l.key l.text)
      = command.elim [] fun words =>
        Toml.entryLine "clipboard_command" (Toml.arrayText words) := by
  cases command with
  | none => rfl
  | some words => exact List.flatMap_singleton ..

/-- The section of how a document is written. -/
def Output.toSection (o : Output)
    (h : ∀ words ∈ o.clipboardCommand, ∀ word ∈ words, Toml.IsPlain word) : Section where
  name := "output"
  lines := [
    .ofBool "include_children" (by decide +kernel) o.includeChildren,
    .ofBool "include_child_count" (by decide +kernel) o.includeChildCount,
    .ofString "ref_mode" (by decide +kernel) o.refMode.toName o.refMode.isPlain_toName,
    .ofBool "pretty" (by decide +kernel) o.pretty,
    .ofBool "clipboard" (by decide +kernel) o.clipboard,
    .ofList "structural_fields" (by decide +kernel) (o.structuralFields.map StructuralField.toName)
      (List.forall_mem_map.mpr fun field _ => field.isPlain_toName)] ++
    commandLines o.clipboardCommand h
  isBareKey := by decide +kernel
  nodup := by
    rw [List.map_append, map_key_commandLines]
    show (["include_children", "include_child_count", "ref_mode", "pretty", "clipboard",
      "structural_fields"] ++ _).Nodup
    split <;> decide

/-- The sections of all settings. -/
def sections (s : Settings) (h : s.Storable) : List Section :=
  [s.parsing.toSection (h.counts_lt _ (by simp [counts])),
    s.slicing.toSection (h.counts_lt _ (by simp [counts])) (h.counts_lt _ (by simp [counts])),
    s.output.toSection h.command_isPlain]

/-- The lines of settings are those of their sections. -/
theorem lines_eq_sections (s : Settings) (h : s.Storable) :
    s.lines = Text.join ['\n'] ((s.sections h).map Section.text) := by
  simp only [lines, sections, List.map_cons, List.map_nil, Text.join, Section.text,
    Parsing.toSection, Slicing.toSection, Output.toSection, flatMap_commandLines,
    List.flatMap_cons, List.flatMap_nil, Line.ofNat, Line.ofBool, Line.ofString, Line.ofList,
    List.append_assoc, List.append_nil, List.cons_append, List.nil_append]
  cases s.output.clipboardCommand with
  | none => rfl
  | some command => rfl

/-! ## Sections as settings -/

theorem nat?_integer (n : Nat) : Toml.nat? (.integer n) = some n := by
  simp [Toml.nat?]

/-- A list whose items are read back is read back. -/
theorem list?_map {α : Type} {read : Toml → Option α} {write : α → Toml}
    (h : ∀ a, read (write a) = some a) (as : List α) :
    Toml.list? read (.array (as.map write)) = some as := by
  show (as.map write).mapM read = some as
  induction as with
  | nil => rfl
  | cons a as ih =>
    rw [List.map_cons, List.mapM_cons, h, ih]
    rfl

/-- A command that is not written is one that is not set. -/
theorem ofToml?_commandLines (command : Option (List String))
    (h : ∀ words ∈ command, ∀ word ∈ words, Toml.IsPlain word) :
    Toml.fieldOr? (fun v => (Toml.list? Toml.text? v).map some) none
        (((commandLines command h).map fun l => (l.key, l.value)).lookup "clipboard_command")
      = some command := by
  cases command with
  | none => rfl
  | some words =>
    have hword : ∀ word, Toml.text? (.string word) = some word := fun _ => rfl
    have hwords : Toml.list? Toml.text? (.array (words.map .string)) = some words :=
      list?_map hword words
    show (Toml.list? Toml.text? (.array (words.map .string))).map some = _
    rw [hwords]
    rfl

theorem Parsing.ofToml?_toSection (p : Parsing) (h : p.maxFileSize < 0x8000000000000000) :
    Parsing.ofToml? (some (p.toSection h).toToml) = some p := by
  show (Toml.nat? (.integer p.maxFileSize)).bind (fun size =>
    (Dialect.ofName? p.language.toName).bind fun language =>
      some (Parsing.mk size language)) = some p
  rw [nat?_integer, Dialect.ofName?_toName]
  rfl

theorem Slicing.ofToml?_toSection (r : Slicing) (hfull : r.fullRadius < 0x8000000000000000)
    (hcontext : r.contextRadius < 0x8000000000000000) :
    Slicing.ofToml? (some (r.toSection hfull hcontext).toToml) = some r := by
  show (Toml.nat? (.integer r.fullRadius)).bind (fun full =>
    (Toml.nat? (.integer r.contextRadius)).bind fun context =>
      some (Slicing.mk full context)) = some r
  rw [nat?_integer, nat?_integer]
  rfl

theorem Output.ofToml?_toSection (o : Output)
    (h : ∀ words ∈ o.clipboardCommand, ∀ word ∈ words, Toml.IsPlain word) :
    Output.ofToml? (some (o.toSection h).toToml) = some o := by
  have hfields : Toml.list? (Toml.choice? StructuralField.ofName?)
      (.array ((o.structuralFields.map StructuralField.toName).map .string))
      = some o.structuralFields := by
    rw [List.map_map]
    exact list?_map StructuralField.ofName?_toName _
  have hlookup : ((o.toSection h).lines.map fun l => (l.key, l.value)).lookup "clipboard_command"
      = ((commandLines o.clipboardCommand h).map fun l => (l.key, l.value)).lookup
        "clipboard_command" := rfl
  show (RefMode.ofName? o.refMode.toName).bind (fun mode =>
    (Toml.list? (Toml.choice? StructuralField.ofName?)
      (.array ((o.structuralFields.map StructuralField.toName).map .string))).bind fun fields =>
    (Toml.fieldOr? (fun v => (Toml.list? Toml.text? v).map some) none
      (((o.toSection h).lines.map fun l => (l.key, l.value)).lookup "clipboard_command")).bind
        fun command => some (Output.mk o.includeChildren o.includeChildCount mode o.pretty
          o.clipboard fields command)) = some o
  rw [RefMode.ofName?_toName, hfields, hlookup, ofToml?_commandLines]
  rfl

/-- **The sections of settings say what the settings are.** -/
theorem ofToml?_sections (s : Settings) (h : s.Storable) :
    ofToml? (.table ((s.sections h).map fun x => (x.name, x.toToml))) = some s := by
  show (Parsing.ofToml? (some (s.parsing.toSection _).toToml)).bind (fun parsing =>
    (Slicing.ofToml? (some (s.slicing.toSection _ _).toToml)).bind fun slicing =>
      (Output.ofToml? (some (s.output.toSection _).toToml)).bind fun output =>
        some (Settings.mk parsing slicing output)) = some s
  rw [Parsing.ofToml?_toSection, Slicing.ofToml?_toSection, Output.ofToml?_toSection]
  rfl

/-! ## Saving and loading -/

/-- **Saved settings are loaded again.** Settings whose counts have at most 63 bits, and whose
clipboard command, if it is set, has no control characters and no single quotes, can be written as a
text, and the text holds the same settings. Saving them can only fail where the text cannot be
written to the file, and what is loaded from the file afterwards are the same settings. -/
theorem load_save (s : Settings) (hcounts : ∀ n ∈ s.counts, n < 0x8000000000000000)
    (hcommand : ∀ command ∈ s.output.clipboardCommand, ∀ word ∈ command, Toml.IsPlain word) :
    ∃ text, s.text = .ok text ∧ parse text = .ok s
      ∧ ∀ (fs : Files) (path : String),
        s.save fs path = FileError.lift (fs.write path text)
        ∧ ∀ fs', s.save fs path = .ok fs' → load fs' path = .ok s := by
  have hs : s.Storable := ⟨hcounts, hcommand⟩
  have htext : s.text = .ok (String.ofList s.lines) :=
    if_pos (List.all_eq_true.mpr fun n hn => decide_eq_true (hcounts n hn))
  have hparse : parse (String.ofList s.lines) = .ok s := by
    have hnames : ((s.sections hs).map (·.name)).Nodup := by
      show ["parsing", "slicing", "output"].Nodup
      decide
    unfold parse
    rw [lines_eq_sections s hs, Toml.read?_sections hnames, Option.bind_some, ofToml?_sections]
  generalize String.ofList s.lines = text at htext hparse
  have hsave : ∀ fs path, s.save fs path = FileError.lift (fs.write path text) := by
    intro fs path
    unfold save
    rw [htext]
    rfl
  refine ⟨text, htext, hparse, fun fs path => ⟨hsave fs path, fun fs' h => ?_⟩⟩
  rw [hsave] at h
  cases hwrite : fs.write path text with
  | error e => rw [hwrite] at h; cases h
  | ok written =>
    rw [hwrite] at h
    obtain rfl : written = fs' := Except.ok.inj h
    unfold load
    rw [(Files.write_eq_ok hwrite).1]
    exact hparse

/-- Settings with the largest count that can be written, with fields that are listed twice, and with
a command in which there is an empty word and words that need single quotes. -/
def quotedCommand : Settings where
  parsing := { maxFileSize := 0x7FFFFFFFFFFFFFFF, language := .tsx }
  slicing := { fullRadius := 0 }
  output := {
    structuralFields := [.name, .id, .name]
    clipboardCommand := some ["clip", "", "say \"ü\"", "C:\\x", "# [a], "] }

theorem load_save_quotedCommand :
    (∀ n ∈ quotedCommand.counts, n < 0x8000000000000000)
    ∧ (∀ command ∈ quotedCommand.output.clipboardCommand, ∀ word ∈ command, Toml.IsPlain word)
    ∧ ∃ text, quotedCommand.text = .ok text ∧ parse text = .ok quotedCommand
      ∧ ∃ fs', quotedCommand.save ⟨[], []⟩ "callslice.toml" = .ok fs'
        ∧ load fs' "callslice.toml" = .ok quotedCommand := by
  have hcounts : ∀ n ∈ quotedCommand.counts, n < 0x8000000000000000 := by decide
  have hcommand : ∀ command ∈ quotedCommand.output.clipboardCommand, ∀ word ∈ command,
      Toml.IsPlain word := by decide +kernel
  obtain ⟨text, htext, hparse, hfiles⟩ := load_save quotedCommand hcounts hcommand
  obtain ⟨hsave, hload⟩ := hfiles ⟨[], []⟩ "callslice.toml"
  obtain ⟨fs', hfs'⟩ : ∃ fs', quotedCommand.save ⟨[], []⟩ "callslice.toml" = .ok fs' := by
    rw [hsave]
    exact ⟨_, rfl⟩
  exact ⟨hcounts, hcommand, text, htext, hparse, fs', hfs', hload fs' hfs'⟩

end Settings

end CallVicinity
