import CallVicinity.Host.Files

/-!
# Writing to a file tree

A text that was written to a path is what is read from that path afterwards, and nothing else in the
tree is different: the directories are the same, and so is every other file
(`Files.write_eq_ok`). A write that fails gives no new tree at all.

A file that is set does not change how paths are walked, since only directories are entered. That is
what makes the written file be found again (`Files.Place.locate_set`). It can be read because what
may be written may be read, and a new file may be both.
-/

namespace CallVicinity

theorem fromUTF8?_toUTF8 (text : String) : String.fromUTF8? text.toUTF8 = some text := by
  unfold String.fromUTF8?
  rw [String.toUTF8_eq_toByteArray, dif_pos text.isValidUTF8]
  rfl

/-- What may be written may be read. -/
theorem Access.canRead_of_canWrite {a : Access} (h : a.canWrite = true) : a.canRead = true := by
  cases a with
  | none | readOnly => cases h
  | full => rfl

namespace Files

/-! ## Single files -/

variable {fs : Files} {names : Names} {bytes : ByteArray}

theorem directories_set : (fs.set names bytes).directories = fs.directories := by
  unfold set
  split
  next => rfl
  next => rfl

theorem isDirectory_set (there : Names) :
    (fs.set names bytes).isDirectory there = fs.isDirectory there := by
  unfold isDirectory
  rw [directories_set]

theorem directoryAccess_set (there : Names) :
    (fs.set names bytes).directoryAccess there = fs.directoryAccess there := by
  unfold directoryAccess
  rw [directories_set]

theorem lookup_cons_ite (key other : Names) (file : File) (contents : List (Names × File)) :
    ((key, file) :: contents).lookup other
      = if other = key then some file else contents.lookup other := by
  rw [List.lookup_cons]
  split
  next h => rw [if_pos (eq_of_beq h)]
  next h => rw [if_neg (beq_eq_false_iff_ne.mp h)]

/-- Replacing the bytes under a key leaves the other keys alone. -/
theorem lookup_replace (names other : Names) (bytes : ByteArray) (contents : List (Names × File)) :
    (contents.map fun p => if p.1 == names then (names, { p.2 with bytes }) else p).lookup other
      = if other = names then (contents.lookup other).map fun file => { file with bytes }
        else contents.lookup other := by
  induction contents with
  | nil => simp
  | cons p contents ih =>
    obtain ⟨key, old⟩ := p
    by_cases hkey : key = names
    · rw [List.map_cons, if_pos (beq_iff_eq.mpr hkey), lookup_cons_ite, ih, lookup_cons_ite, hkey]
      by_cases hother : other = names
      · simp only [if_pos hother, Option.map_some]
      · simp only [if_neg hother]
    · rw [List.map_cons, if_neg (by simpa using hkey), lookup_cons_ite, ih, lookup_cons_ite]
      by_cases hother : other = key
      · have hne : other ≠ names := fun he => hkey (hother.symm.trans he)
        simp only [if_pos hother, if_neg hne]
      · simp only [if_neg hother]

/-- The file that setting some bytes leaves behind: an old file keeps its access. -/
def renewed (fs : Files) (names : Names) (bytes : ByteArray) : File :=
  ⟨bytes, ((fs.get? names).map (·.access)).getD .full⟩

/-- A file that was set has the new bytes, and no other file changes. -/
theorem get?_set (other : Names) :
    (fs.set names bytes).get? other
      = if other = names then some (fs.renewed names bytes) else fs.get? other := by
  unfold set
  split
  next hsome =>
    obtain ⟨old, hold⟩ := Option.isSome_iff_exists.mp hsome
    show (fs.contents.map _).lookup other = _
    rw [lookup_replace]
    by_cases hother : other = names
    · rw [if_pos hother, if_pos hother, hother]
      show (fs.get? names).map _ = _
      unfold renewed
      rw [hold]
      rfl
    · rw [if_neg hother, if_neg hother]
      rfl
  next hnone =>
    have hold : fs.get? names = none := Option.not_isSome_iff_eq_none.mp hnone
    show (fs.contents ++ [(names, File.mk bytes .full)]).lookup other = _
    rw [List.lookup_append, lookup_cons_ite]
    by_cases hother : other = names
    · have hlookup : fs.contents.lookup other = none := by
        rw [hother]
        exact hold
      rw [if_pos hother, if_pos hother, hlookup, Option.none_or]
      unfold renewed
      rw [hold]
      rfl
    · rw [if_neg hother, if_neg hother, List.lookup_nil, Option.or_none]
      rfl

/-! ## Paths -/

theorem enter_set {here there : Names} {name : String} (h : fs.enter here name = .ok there) :
    (fs.set names bytes).enter here name = .ok there := by
  unfold enter at h ⊢
  dsimp only at h ⊢
  rw [isDirectory_set, directoryAccess_set]
  split at h
  next => cases h
  next hopen =>
    rw [if_neg hopen]
    split at h
    next hdot => rw [if_pos hdot]; exact h
    next hdot =>
      rw [if_neg hdot]
      split at h
      next hup => rw [if_pos hup]; exact h
      next hup =>
        rw [if_neg hup]
        split at h
        next => cases h
        next hlong =>
          rw [if_neg hlong]
          split at h
          next hdir => rw [if_pos hdir]; exact h
          next => split at h <;> cases h

theorem foldlM_enter_set :
    ∀ (path : Names) {here there : Names}, path.foldlM fs.enter here = .ok there →
      path.foldlM (fs.set names bytes).enter here = .ok there := by
  intro path
  induction path with
  | nil => intro here there h; exact h
  | cons name path ih =>
    intro here there h
    rw [List.foldlM_cons] at h ⊢
    cases hstep : fs.enter here name with
    | error e => rw [hstep] at h; cases h
    | ok next =>
      rw [hstep] at h
      rw [enter_set hstep]
      exact ih h

theorem holder_set {path : String} {here : Names} (h : fs.holder path = .ok here) :
    (fs.set names bytes).holder path = .ok here := by
  unfold holder at h ⊢
  split at h
  next => cases h
  next hnul =>
    rw [if_neg hnul]
    split at h
    next => cases h
    next hempty =>
      rw [if_neg hempty]
      split at h
      next => cases h
      next hlong =>
        rw [if_neg hlong]
        cases hwalk : (namesOf path).dropLast.foldlM fs.enter (startOf path) with
        | error e => rw [hwalk] at h; cases h
        | ok there =>
          rw [hwalk] at h
          rw [foldlM_enter_set _ hwalk]
          simp only [bind, Except.bind, directoryAccess_set] at h ⊢
          exact h

/-- The last name of a path, if it is one that a file can have. -/
def fileName? (path : String) : Option String :=
  (namesOf path).getLast?.filter fun last => !(last = "." || last = ".." || isLongName last)

/-- What a path with a usable last name leads to is looked up in the directory that holds it. -/
theorem locate_eq {path last : String} {here : Names} (hhere : fs.holder path = .ok here)
    (hlast : fileName? path = some last) :
    fs.locate path = .ok (fs.spotAt (here ++ [last])) := by
  obtain ⟨hget, hname⟩ := Option.filter_eq_some_iff.mp hlast
  simp only [Bool.not_eq_true', Bool.or_eq_false_iff, decide_eq_false_iff_not] at hname
  obtain ⟨⟨hdot, hup⟩, hlong⟩ := hname
  unfold locate
  rw [hhere, hget]
  simp only [bind, Except.bind, hdot, hup, hlong]
  rfl

/-- Files, and places for them, are under ways that lead to no directory. -/
theorem spotAt_cases (fs : Files) (there : Names) :
    fs.spotAt there = .directory there ∨ fs.isDirectory there = false ∧
      ((∃ file, fs.get? there = some file ∧ fs.spotAt there = .file there file) ∨
        fs.get? there = none ∧ fs.spotAt there = .vacant there) := by
  unfold spotAt
  cases fs.isDirectory there with
  | true => exact Or.inl rfl
  | false =>
    refine Or.inr ⟨rfl, ?_⟩
    cases fs.get? there with
    | some file => exact Or.inl ⟨file, rfl, rfl⟩
    | none => exact Or.inr ⟨rfl, rfl⟩

theorem locate_unusable {path : String} {here : Names} (hhere : fs.holder path = .ok here)
    (hlast : fileName? path = none) :
    (∃ there, fs.locate path = .ok (.directory there)) ∨
      fs.locate path = .error .nameTooLong := by
  unfold locate
  rw [hhere]
  cases hget : (namesOf path).getLast? with
  | none => exact Or.inl ⟨here, rfl⟩
  | some last =>
    by_cases hdots : last = "." ∨ last = ".."
    · refine Or.inl ⟨step here last, ?_⟩
      show (if last = "." ∨ last = ".." then _ else _) = _
      rw [if_pos hdots]
      rfl
    · obtain ⟨hdot, hup⟩ := not_or.mp hdots
      have hlong : isLongName last = true := by simpa [fileName?, hget, hdot, hup] using hlast
      right
      show (if last = "." ∨ last = ".." then _ else _) = _
      rw [if_neg hdots, if_pos hlong]
      rfl

/-- A path leads to a file, or to where one can be made. -/
def Place (fs : Files) (path : String) (names : Names) : Prop :=
  fs.locate path = .ok (.vacant names) ∨ ∃ file, fs.locate path = .ok (.file names file)

/-- A path leads to something by a usable last name, or to a directory. -/
theorem locate_cases {path : String} {spot : Spot} (h : fs.locate path = .ok spot) :
    (∃ there, spot = .directory there) ∨
      ∃ here last, fs.holder path = .ok here ∧ fileName? path = some last ∧
        spot = fs.spotAt (here ++ [last]) := by
  cases hhere : fs.holder path with
  | error e =>
    unfold locate at h
    rw [hhere] at h
    cases h
  | ok here =>
    cases hlast : fileName? path with
    | none =>
      rcases locate_unusable hhere hlast with ⟨there, hlocate⟩ | hlocate
      · rw [hlocate] at h
        exact Or.inl ⟨there, (Except.ok.inj h).symm⟩
      · rw [hlocate] at h
        cases h
    | some last =>
      rw [locate_eq hhere hlast] at h
      exact Or.inr ⟨here, last, rfl, rfl, (Except.ok.inj h).symm⟩

/-- A path that leads to a file leads to one that is in the tree. -/
theorem get?_of_locate_file {path : String} {file : File}
    (h : fs.locate path = .ok (.file names file)) : fs.get? names = some file := by
  rcases locate_cases h with ⟨there, hspot⟩ | ⟨here, last, -, -, hspot⟩
  · cases hspot
  · rcases fs.spotAt_cases (here ++ [last]) with hdir | ⟨-, ⟨found, hget, hfile⟩ | ⟨-, hvacant⟩⟩
    · rw [hdir] at hspot; cases hspot
    · rw [hfile] at hspot
      obtain ⟨rfl, rfl⟩ := Spot.file.inj hspot
      exact hget
    · rw [hvacant] at hspot; cases hspot

/-- A path that leads to a place for a file leads to one where none is. -/
theorem get?_of_locate_vacant {path : String} (h : fs.locate path = .ok (.vacant names)) :
    fs.get? names = none := by
  rcases locate_cases h with ⟨there, hspot⟩ | ⟨here, last, -, -, hspot⟩
  · cases hspot
  · rcases fs.spotAt_cases (here ++ [last]) with hdir | ⟨-, ⟨found, -, hfile⟩ | ⟨hget, hvacant⟩⟩
    · rw [hdir] at hspot; cases hspot
    · rw [hfile] at hspot; cases hspot
    · rw [hvacant] at hspot
      obtain rfl := Spot.vacant.inj hspot
      exact hget

/-- A path leads to such a place only by a usable last name. -/
theorem Place.exists_name {path : String} (h : fs.Place path names) :
    ∃ here last, fs.holder path = .ok here ∧ fileName? path = some last ∧
      names = here ++ [last] ∧ fs.isDirectory names = false := by
  obtain ⟨spot, hlocate, hspot⟩ : ∃ spot, fs.locate path = .ok spot ∧
      (spot = .vacant names ∨ ∃ file, spot = .file names file) := by
    rcases h with hvacant | ⟨file, hfile⟩
    · exact ⟨_, hvacant, Or.inl rfl⟩
    · exact ⟨_, hfile, Or.inr ⟨file, rfl⟩⟩
  rcases locate_cases hlocate with ⟨there, rfl⟩ | ⟨here, last, hhere, hlast, rfl⟩
  · simp at hspot
  · refine ⟨here, last, hhere, hlast, ?_⟩
    rcases fs.spotAt_cases (here ++ [last]) with hdir | ⟨hdir, ⟨found, -, hfile⟩ | ⟨-, hvacant⟩⟩
    · simp [hdir] at hspot
    · obtain rfl : here ++ [last] = names := by simpa [hfile] using hspot
      exact ⟨rfl, hdir⟩
    · obtain rfl : here ++ [last] = names := by simpa [hvacant] using hspot
      exact ⟨rfl, hdir⟩

/-- A path that leads to a file, or to a place for one, leads to the file that was set there. -/
theorem Place.locate_set {path : String} (h : fs.Place path names) (bytes : ByteArray) :
    (fs.set names bytes).locate path = .ok (.file names (fs.renewed names bytes)) := by
  obtain ⟨here, last, hhere, hlast, rfl, hdir⟩ := h.exists_name
  rw [locate_eq (holder_set hhere) hlast]
  unfold spotAt
  rw [isDirectory_set, hdir, get?_set, if_pos rfl]
  rfl

/-- A text is written to a place for a file, by a path that does not end with a slash, and the file
that it is in then can be read. -/
theorem exists_place_of_write {path text : String} {fs' : Files}
    (h : fs.write path text = .ok fs') :
    endsWithSlash path = false ∧ ∃ names, fs.Place path names ∧ fs' = fs.set names text.toUTF8 ∧
      (fs.renewed names text.toUTF8).access.canRead = true := by
  unfold write at h
  cases hhere : fs.holder path with
  | error e => rw [hhere] at h; cases h
  | ok here =>
    rw [hhere] at h
    cases hslash : endsWithSlash path with
    | true => rw [hslash] at h; cases h
    | false =>
      refine ⟨rfl, ?_⟩
      cases hspot : fs.locate path with
      | error e => rw [hslash, hspot] at h; cases h
      | ok spot =>
        rw [hslash, hspot] at h
        cases spot with
        | directory names => cases h
        | file names file =>
          change (if file.access.canWrite then .ok (fs.set names text.toUTF8)
            else .error FileError.denied) = Except.ok fs' at h
          split at h
          next haccess =>
            refine ⟨names, Or.inr ⟨file, hspot⟩, (Except.ok.inj h).symm, ?_⟩
            unfold renewed
            rw [get?_of_locate_file hspot]
            exact Access.canRead_of_canWrite haccess
          next => cases h
        | vacant names =>
          change (if (fs.directoryAccess here).canWrite then .ok (fs.set names text.toUTF8)
            else .error FileError.denied) = Except.ok fs' at h
          split at h
          next =>
            refine ⟨names, Or.inl hspot, (Except.ok.inj h).symm, ?_⟩
            unfold renewed
            rw [get?_of_locate_vacant hspot]
            rfl
          next => cases h

/-- **A text that was written is there, and nothing else has changed.** -/
theorem write_eq_ok {path text : String} {fs' : Files} (h : fs.write path text = .ok fs') :
    fs'.readText path = .ok text ∧ fs'.directories = fs.directories ∧
      ∃ names, ∀ other ≠ names, fs'.get? other = fs.get? other := by
  obtain ⟨hslash, names, hplace, rfl, hread⟩ := exists_place_of_write h
  refine ⟨?_, directories_set, names, fun other hother => by rw [get?_set, if_neg hother]⟩
  have hbytes : (fs.set names text.toUTF8).read path = .ok text.toUTF8 := by
    unfold read
    rw [hplace.locate_set]
    dsimp only
    rw [hslash, hread]
    rfl
  unfold readText
  rw [hbytes]
  simp only [bind, Except.bind, fromUTF8?_toUTF8]
  rfl

-- a file that may only be read is not written, and a closed directory hides its files
example : Files.write ⟨[], [(["a"], ⟨.empty, .readOnly⟩)]⟩ "a" "x" = .error .denied := rfl

example : Files.readText ⟨[(["d"], .none)], [(["d", "a"], ⟨.empty, .full⟩)]⟩ "d/a"
    = .error .denied := rfl

end Files

end CallVicinity
