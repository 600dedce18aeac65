import DocTemplate.Proofs.Files.Names

/-! Files written over a file system. A file that is written where no directory stands leaves every
directory a directory, so a path leads through the same places as before. It leads to another entry
only if it ends at a name of the written file, and it may lead nowhere for another reason. Neither
can happen to a path that names a data file when the written files are documents without further
names. -/

namespace DocTemplate

namespace FileSystem

/-! ### Places -/

theorem lookup_cons (place : Place) (e : Entry) (entries : List (Place × Entry)) (other : Place) :
    ((place, e) :: entries).lookup other =
      if other = place then some e else entries.lookup other := by
  rw [List.lookup_cons]
  by_cases h : other = place
  · rw [if_pos h, beq_iff_eq.mpr h]
  · rw [if_neg h, beq_eq_false_iff_ne.mpr h]

theorem lookup_setEntry (place : Place) (e : Entry) (entries : List (Place × Entry))
    (other : Place) :
    (setEntry place e entries).lookup other =
      if other = place then some e else entries.lookup other := by
  induction entries with
  | nil => exact lookup_cons place e [] other
  | cons entry entries ih =>
    obtain ⟨p, old⟩ := entry
    rw [setEntry]
    split
    · next hp =>
      rw [lookup_cons, lookup_cons, hp]
      by_cases h : other = place <;> simp [h]
    · next hp =>
      rw [lookup_cons, lookup_cons, ih]
      by_cases h : other = p
      · have hne : other ≠ place := h ▸ hp
        simp [h, hp]
      · simp [h]

theorem entry?_root (fs : FileSystem) : fs.entry? [] = some .directory := rfl

theorem entry?_of_ne (fs : FileSystem) {place : Place} (h : place ≠ []) :
    fs.entry? place = fs.entries.lookup (fs.home place) := if_neg (by simpa using h)

/-- What is set at a place stands at all names of what was there. -/
theorem entry?_set (fs : FileSystem) (place : Place) (e : Entry) (other : Place) :
    entry? (fs.set place e) other =
      if other ≠ [] ∧ fs.home other = fs.home place then some e else fs.entry? other := by
  by_cases hRoot : other = []
  · rw [if_neg fun h => h.1 hRoot, hRoot, entry?_root, entry?_root]
  · rw [entry?_of_ne _ hRoot, entry?_of_ne _ hRoot]
    show (setEntry (fs.home place) e fs.entries).lookup (fs.home other) = _
    rw [lookup_setEntry]
    simp [hRoot]

theorem home_of_unlinked {fs : FileSystem} (h : fs.links = []) (place : Place) :
    fs.home place = place := by
  rw [home, h]
  rfl

/-- Without further names nothing else changes. -/
theorem entry?_set_of_unlinked {fs : FileSystem} (h : fs.links = []) {place : Place}
    (hPlace : place ≠ []) (e : Entry) (other : Place) :
    entry? (fs.set place e) other = if other = place then some e else fs.entry? other := by
  rw [entry?_set, home_of_unlinked h, home_of_unlinked h]
  by_cases hOther : other = place
  · rw [if_pos ⟨hOther ▸ hPlace, hOther⟩, if_pos hOther]
  · rw [if_neg fun hSame => hOther hSame.2, if_neg hOther]

/-- File systems with the same working directory, the same entry at each place, and the same further
names. -/
structure Same (fs fs' : FileSystem) : Prop where
  current : fs.current = fs'.current
  entries : ∀ place, fs.entry? place = fs'.entry? place
  links : fs.links = fs'.links

theorem Same.follow {fs fs' : FileSystem} (h : Same fs fs') (place : Place) (parts : List String) :
    fs.follow place parts = fs'.follow place parts := by
  induction parts generalizing place with
  | nil => rw [FileSystem.follow, FileSystem.follow, h.entries]
  | cons part parts ih => simp only [FileSystem.follow, h.entries, ih]

/-- No path tells them apart. -/
theorem Same.find {fs fs' : FileSystem} (h : Same fs fs') (p : FilePath) :
    fs.find p = fs'.find p := by
  rw [FileSystem.find, FileSystem.find, target, target, h.current, h.follow]

/-! ### The directory around a name -/

/-- Why a path cannot go on through a place that is no directory. -/
def blocked (fs : FileSystem) (place : Place) : SystemError :=
  if (fs.entry? place).isNone then .noSuchFile else .notDirectory

/-- The directory that parts lead to when a name follows them. -/
def enter (fs : FileSystem) (place : Place) : List String → Except SystemError Place
  | [] => if fs.entry? place ≠ some .directory then .error (fs.blocked place) else .ok place
  | part :: parts =>
    if fs.entry? place ≠ some .directory then .error (fs.blocked place)
    else if FilePath.isVoid part then fs.enter place parts
    else if part == ".." then fs.enter place.dropLast parts
    else fs.enter (place ++ [part]) parts

theorem follow_concat (fs : FileSystem) {name : String} (h : FilePath.IsFileName name)
    (place : Place) (parts : List String) :
    fs.follow place (parts ++ [name]) = (fs.enter place parts).map fun dir =>
      ⟨dir ++ [name], fs.entry? (dir ++ [name]), true, false⟩ := by
  induction parts generalizing place with
  | nil =>
    rw [List.nil_append, follow, enter]
    split
    · rfl
    · simp [h.notVoid, h.notUp, Except.map]
  | cons part parts ih =>
    have hSome : ¬(parts ++ [name]).isEmpty = true := by simp
    have hName : ¬(parts ++ [name]).all String.isEmpty = true := by simp [h.ne_empty]
    rw [List.cons_append, follow, if_neg hSome, if_neg hName, enter]
    split
    · rfl
    · split
      · exact ih place
      · split
        · exact ih place.dropLast
        · exact ih (place ++ [part])

/-- Where the files of a directory stand. -/
def inside (fs : FileSystem) (dir : FilePath) : Except SystemError Place :=
  fs.enter (if dir.isAbsolute then [] else fs.current) dir.steps

theorem target_join (fs : FileSystem) (dir : FilePath) {name : String}
    (h : FilePath.IsFileName name) :
    fs.target (dir.join ⟨name⟩) = (fs.inside dir).map fun place =>
      ⟨place ++ [name], fs.entry? (place ++ [name]), true, false⟩ := by
  have hText : ¬(dir.join ⟨name⟩).text.isEmpty = true := by
    simpa using FilePath.text_join_ne_empty dir h
  rw [target, if_neg hText, FilePath.isAbsolute_join dir h, FilePath.parts_join dir h,
    follow_concat fs h]
  rfl

theorem write_join (fs : FileSystem) (dir : FilePath) {name : String}
    (h : FilePath.IsFileName name) (content : ByteArray) :
    fs.write (dir.join ⟨name⟩) content =
      match fs.inside dir with
      | .error e => .error e
      | .ok place =>
        if fs.entry? (place ++ [name]) = some .directory then .error .isDirectory
        else .ok (fs.set (place ++ [name]) (.file content)) := by
  rw [write, target_join fs dir h]
  cases fs.inside dir with
  | error e => rfl
  | ok place =>
    show (if _ then _ else _) = _
    simp

theorem find_join (fs : FileSystem) (dir : FilePath) {name : String}
    (h : FilePath.IsFileName name) :
    fs.find (dir.join ⟨name⟩) =
      match fs.inside dir with
      | .error e => .error e
      | .ok place =>
        match fs.entry? (place ++ [name]) with
        | none => .error .noSuchFile
        | some e => .ok e := by
  rw [find, target_join fs dir h]
  cases fs.inside dir with
  | error e => rfl
  | ok place =>
    show (match fs.entry? (place ++ [name]) with
      | none => _
      | some e => _) = _
    cases hEntry : fs.entry? (place ++ [name]) <;> simp [hEntry]

/-! ### The name at a place -/

theorem follow_voids {fs : FileSystem} {place : Place} {parts : List String}
    (h : ∀ part ∈ parts, FilePath.isVoid part = true) {t : Target}
    (hFollow : fs.follow place parts = .ok t) : t.place = place := by
  induction parts with
  | nil =>
    rw [follow] at hFollow
    cases hFollow
    rfl
  | cons part parts ih =>
    obtain ⟨hPart, hParts⟩ := List.forall_mem_cons.mp h
    rw [follow] at hFollow
    split at hFollow
    · contradiction
    · exact ih hParts hFollow

/-- A path that is followed ends at a place with the path's name. -/
theorem follow_name {fs : FileSystem} {name : String} (hName : FilePath.IsFileName name)
    {place : Place} {parts : List String} (h : FilePath.EndsIn parts name) {t : Target}
    (hFollow : fs.follow place parts = .ok t) : t.place.getLast? = some name := by
  obtain ⟨before, after, rfl, hAfter⟩ := h
  induction before generalizing place with
  | nil =>
    rw [List.nil_append, follow] at hFollow
    split at hFollow
    · contradiction
    · simp only [hName.notVoid, beq_eq_false_iff_ne.mpr hName.notUp, Bool.false_eq_true,
        if_false] at hFollow
      split at hFollow
      · cases hFollow
        exact List.getLast?_concat
      · split at hFollow
        · cases hFollow
          exact List.getLast?_concat
        · rw [follow_voids hAfter hFollow]
          exact List.getLast?_concat
  | cons part before ih =>
    have hSome : ¬(before ++ name :: after).isEmpty = true := by simp
    have hNamed : ¬(before ++ name :: after).all String.isEmpty = true := by simp [hName.ne_empty]
    rw [List.cons_append, follow, if_neg hSome, if_neg hNamed] at hFollow
    split at hFollow
    · contradiction
    · split at hFollow
      · exact ih hFollow
      · split at hFollow
        · exact ih hFollow
        · exact ih hFollow

/-! ### Overlays -/

/-- `fs'` is `fs` with files written that are kept at some of the places `P`, where no directory
stands. -/
structure Overlay (P : Place → Prop) (fs fs' : FileSystem) : Prop where
  current : fs'.current = fs.current
  links : fs'.links = fs.links
  entries : ∀ place, fs'.entry? place = fs.entry? place ∨
    P (fs.home place) ∧ fs.entry? place ≠ some .directory ∧
      ∃ content, fs'.entry? place = some (.file content)

variable {P : Place → Prop} {fs fs' : FileSystem}

theorem Overlay.directory_iff (h : Overlay P fs fs') (place : Place) :
    fs'.entry? place = some .directory ↔ fs.entry? place = some .directory := by
  rcases h.entries place with hSame | ⟨-, hNot, content, hFile⟩
  · rw [hSame]
  · simp [hFile, hNot]

theorem Overlay.enter (h : Overlay P fs fs') {place dir : Place} {parts : List String}
    (hEnter : fs.enter place parts = .ok dir) : fs'.enter place parts = .ok dir := by
  have hDirectory := h.directory_iff
  induction parts generalizing place with
  | nil =>
    rw [FileSystem.enter] at hEnter ⊢
    split at hEnter
    · contradiction
    · next hHere =>
      rwa [if_neg (by simpa [hDirectory] using hHere)]
  | cons part parts ih =>
    rw [FileSystem.enter] at hEnter ⊢
    split at hEnter
    · contradiction
    · next hHere =>
      rw [if_neg (by simpa [hDirectory] using hHere)]
      split at hEnter <;> rename_i hVoid
      · rw [if_pos hVoid]
        exact ih hEnter
      · rw [if_neg hVoid]
        split at hEnter <;> rename_i hUp
        · rw [if_pos hUp]
          exact ih hEnter
        · rw [if_neg hUp]
          exact ih hEnter

theorem Overlay.inside (h : Overlay P fs fs') {dir : FilePath} {place : Place}
    (hInside : fs.inside dir = .ok place) : fs'.inside dir = .ok place := by
  rw [FileSystem.inside, h.current]
  exact h.enter hInside

/-- A path leads through the same places in both, or leads nowhere in either. -/
theorem Overlay.follow (h : Overlay P fs fs') (place : Place) (parts : List String) :
    (∃ t, fs.follow place parts = .ok t ∧ t.entry = fs.entry? t.place ∧
        fs'.follow place parts = .ok { t with entry := fs'.entry? t.place }) ∨
      ∃ e e', fs.follow place parts = .error e ∧ fs'.follow place parts = .error e' := by
  have hDirectory := h.directory_iff
  induction parts generalizing place with
  | nil => exact .inl ⟨_, rfl, rfl, rfl⟩
  | cons part parts ih =>
    rw [FileSystem.follow, FileSystem.follow]
    by_cases hHere : fs.entry? place = some .directory
    · have hHere' := (hDirectory place).mpr hHere
      simp only [hHere, hHere', ne_eq, not_true_eq_false, if_false]
      split
      · exact ih place
      · split
        · exact ih place.dropLast
        · split
          · exact .inl ⟨_, rfl, rfl, rfl⟩
          · split
            · exact .inl ⟨_, rfl, rfl, rfl⟩
            · exact ih (place ++ [part])
    · have hHere' : ¬fs'.entry? place = some .directory := fun hThere =>
        hHere ((hDirectory place).mp hThere)
      simp only [ne_eq, hHere, hHere', not_false_eq_true, if_true]
      exact .inr ⟨_, _, rfl, rfl⟩

/-- A path whose name no written file has leads to the same entry in both, or leads nowhere in
either. -/
theorem Overlay.find (h : Overlay P fs fs') {p : FilePath} {name : String}
    (hName : p.fileName? = some name)
    (hApart : ∀ place, P (fs.home place) → place.getLast? ≠ some name) :
    fs'.find p = fs.find p ∨ ∃ e e', fs.find p = .error e ∧ fs'.find p = .error e' := by
  obtain ⟨hEnds, hFile⟩ := FilePath.endsIn_of_fileName hName
  rw [FileSystem.find, FileSystem.find, target, target, h.current]
  split
  · exact .inl rfl
  · rcases h.follow (if p.isAbsolute then [] else fs.current) p.parts with
      ⟨t, hFollow, hEntry, hFollow'⟩ | ⟨e, e', hFollow, hFollow'⟩
    · have hLast := follow_name hFile hEnds hFollow
      have hKept : fs'.entry? t.place = fs.entry? t.place := by
        rcases h.entries t.place with hSame | ⟨hPlace, -⟩
        · exact hSame
        · exact absurd hLast (hApart _ hPlace)
      rw [hFollow, hFollow', hKept, ← hEntry]
      exact .inl rfl
    · rw [hFollow, hFollow']
      exact .inr ⟨e, e', rfl, rfl⟩

/-! ### One file -/

/-- A path that leads to a place in `fs` leads to the same place in `fs'`. -/
theorem Overlay.target (h : Overlay P fs fs') {p : FilePath} {t : Target}
    (hTarget : fs.target p = .ok t) :
    fs'.target p = .ok { t with entry := fs'.entry? t.place } := by
  rw [FileSystem.target] at hTarget ⊢
  split at hTarget
  · contradiction
  · next hText =>
    rw [if_neg hText, h.current]
    rcases h.follow (if p.isAbsolute then [] else fs.current) p.parts with
      ⟨t', hFollow, -, hFollow'⟩ | ⟨e, -, hError, -⟩
    · rw [hFollow] at hTarget
      exact Except.ok.inj hTarget ▸ hFollow'
    · rw [hError] at hTarget
      contradiction

theorem entry_of_target {p : FilePath} {t : Target} (h : fs.target p = .ok t) :
    t.entry = fs.entry? t.place := by
  have hSelf : Overlay (fun _ => False) fs fs := ⟨rfl, rfl, fun _ => .inl rfl⟩
  have hAgain := hSelf.target h
  rw [h] at hAgain
  exact congrArg Target.entry (Except.ok.inj hAgain)

theorem overlay_set {place : Place} (h : fs.entry? place ≠ some .directory) (content : ByteArray) :
    Overlay (· = fs.home place) fs (fs.set place (.file content)) := by
  have hPlace : place ≠ [] := fun hRoot => h (by rw [hRoot]; rfl)
  refine ⟨rfl, rfl, fun other => ?_⟩
  rw [entry?_set]
  by_cases hSame : other ≠ [] ∧ fs.home other = fs.home place
  · have hEntry : fs.entry? other = fs.entry? place := by
      rw [entry?_of_ne fs hSame.1, entry?_of_ne fs hPlace, hSame.2]
    exact .inr ⟨hSame.2, hEntry ▸ h, content, if_pos hSame⟩
  · exact .inl (if_neg hSame)

/-- A file that was written has the content, and at all places but its names is what was there
before. -/
theorem read_write {p : FilePath} {content : ByteArray} (h : fs.write p content = .ok fs') :
    fs'.read p = .ok content ∧ ∃ place, Overlay (· = place) fs fs' := by
  rw [write] at h
  cases hTarget : fs.target p with
  | error e =>
    rw [hTarget] at h
    contradiction
  | ok t =>
    simp only [hTarget, bind, Except.bind] at h
    split at h
    · contradiction
    · next hFree =>
      simp only [Bool.or_eq_true, Bool.not_eq_true', decide_eq_true_eq, not_or] at hFree
      obtain ⟨⟨-, hSlashed⟩, hFree⟩ := hFree
      rw [entry_of_target hTarget] at hFree
      have hOverlay := overlay_set hFree content
      rw [Except.ok.inj h] at hOverlay
      refine ⟨?_, fs.home t.place, hOverlay⟩
      have hPlace : t.place ≠ [] := fun hRoot => hFree (by rw [hRoot]; rfl)
      have hEntry : fs'.entry? t.place = some (.file content) := by
        rw [← Except.ok.inj h, entry?_set, if_pos ⟨hPlace, rfl⟩]
      have hFind : fs'.find p = .ok (.file content) := by
        rw [find, hOverlay.target hTarget, hEntry]
        simp [bind, Except.bind, hSlashed]
      rw [read, hFind]
      rfl

end FileSystem

/-- Documents written over a file system leave all data files as they were. -/
theorem DataFile.load_overlay {P : Place → Prop} {fs fs' : FileSystem}
    (h : FileSystem.Overlay P fs fs')
    (hPlaces : ∀ place, P (fs.home place) → ∃ stem, place.getLast? = some (stem ++ ".out"))
    (p : FilePath) :
    load fs' p = load fs p := by
  rw [load, load]
  cases hFormat : format? p with
  | none => rfl
  | some format =>
    obtain ⟨extension, hExtension, -⟩ := Option.bind_eq_some_iff.mp hFormat
    obtain ⟨name, hName, -⟩ := Option.bind_eq_some_iff.mp hExtension
    have hApart : ∀ place, P (fs.home place) → place.getLast? ≠ some name := by
      rintro place hPlace hLast
      obtain ⟨stem, hOut⟩ := hPlaces place hPlace
      rw [hLast] at hOut
      rw [format?_of_out (hName.trans hOut)] at hFormat
      contradiction
    rcases h.find hName hApart with hSame | ⟨e, e', hNone, hNone'⟩
    · have hText : fs'.readText p = fs.readText p := by
        rw [FileSystem.readText, FileSystem.readText, FileSystem.read, FileSystem.read, hSame]
      have hFound : fs'.contains p = fs.contains p := by
        rw [FileSystem.contains, FileSystem.contains, hSame]
      rw [hFound, hText]
    · simp only [FileSystem.contains, hNone, hNone']
      rfl

end DocTemplate
