import DocTemplate.Files.DataFile
import DocTemplate.Proofs.Template.Origin
import Mathlib.Data.List.DropRight

/-! The names in paths. A name put after a directory is the last part of the path, and the file name
of a path is its last part but for parts that name nothing. The extension of a file name tells its
format, so no data file can have the name of a document. -/

namespace DocTemplate

theorem Text.notMem_of_mem_splitOn {separator : Char} {cs part : List Char}
    (h : part ∈ splitOn separator cs) : separator ∉ part := by
  induction cs generalizing part with
  | nil =>
    obtain rfl : part = [] := List.mem_singleton.mp h
    exact List.not_mem_nil
  | cons c cs ih =>
    obtain ⟨first, others, hSplit⟩ := List.exists_cons_of_ne_nil (splitOn_ne_nil separator cs)
    rw [hSplit] at ih
    rw [splitOn, hSplit] at h
    split at h
    · rcases List.mem_cons.mp h with rfl | hRest
      · exact List.not_mem_nil
      · exact ih hRest
    · next hOther =>
      rcases List.mem_cons.mp h with rfl | hRest
      · have hFirst := ih List.mem_cons_self
        simp [hFirst, Ne.symm hOther]
      · exact ih (List.mem_cons_of_mem first hRest)

namespace FilePath

/-- A part of a path that names a file: it has no slash, and it is no void part and no two dots. -/
structure IsFileName (name : String) : Prop where
  notMem : '/' ∉ name.toList
  notVoid : isVoid name = false
  notUp : name ≠ ".."

variable {name : String}

theorem IsFileName.ne_empty (h : IsFileName name) : name ≠ "" := by
  rintro rfl
  exact absurd h.notVoid (by decide)

theorem isAbsolute_iff {p : FilePath} : p.isAbsolute = true ↔ p.text.toList.head? = some '/' := by
  rw [isAbsolute, String.startsWith_string_iff]
  show ['/'] <+: _ ↔ _
  cases p.text.toList with
  | nil => simp
  | cons c cs =>
    rw [List.cons_prefix_cons]
    simp [eq_comm]

theorem IsFileName.not_isAbsolute (h : IsFileName name) :
    ¬(FilePath.mk name).isAbsolute = true := by
  rw [isAbsolute_iff]
  exact fun hHead => h.notMem (List.mem_of_mem_head? hHead)

/-! ### A name after a directory -/

/-- The parts of the paths into a directory before the name. The empty path is where one is. -/
def steps (dir : FilePath) : List String :=
  if dir.text.isEmpty then []
  else if dir.text.endsWith "/" then dir.parts.dropLast
  else dir.parts

theorem exists_of_endsWith_slash {s : String} (h : s.endsWith "/" = true) :
    ∃ cs, s.toList = cs ++ ['/'] := by
  rw [← String.endsWith_toSlice, String.Slice.endsWith_string_iff] at h
  obtain ⟨cs, hEq⟩ := h
  exact ⟨cs, by simpa using hEq.symm⟩

theorem join_cases (dir : FilePath) (h : IsFileName name) :
    (dir.text = "" ∧ dir.steps = [] ∧ dir.join ⟨name⟩ = ⟨name⟩) ∨
      ∃ cs, (dir.text.toList = cs ++ ['/'] ∨ dir.text.toList = cs ∧ cs ≠ []) ∧
        dir.steps = (cs.splitOn '/').map String.ofList ∧
        (dir.join ⟨name⟩).text.toList = cs ++ '/' :: name.toList := by
  rw [join, if_neg h.not_isAbsolute, steps]
  by_cases hEmpty : dir.text = ""
  · have hNothing : dir.text.isEmpty = true := by simpa using hEmpty
    refine .inl ⟨hEmpty, if_pos hNothing, ?_⟩
    rw [if_pos (by simp [hNothing]), hEmpty, String.empty_append]
  · have hShown : ¬dir.text.isEmpty = true := by simpa using hEmpty
    rw [if_neg hShown]
    by_cases hSlash : dir.text.endsWith "/" = true
    · obtain ⟨cs, hText⟩ := exists_of_endsWith_slash hSlash
      have hParts : dir.parts = (cs.splitOn '/').map String.ofList ++ [""] := by
        rw [parts, hText, Text.splitOn_eq, List.splitOn_append_cons_self, List.map_append]
        rfl
      refine .inr ⟨cs, .inl hText, ?_, ?_⟩
      · rw [if_pos hSlash, hParts, List.dropLast_concat]
      · rw [if_pos (by simp [hSlash])]
        simp [hText]
    · refine .inr ⟨dir.text.toList, .inr ⟨rfl, by simpa using hEmpty⟩, ?_, ?_⟩
      · rw [if_neg hSlash, parts, Text.splitOn_eq]
      · rw [if_neg (by simp [hShown, hSlash])]
        simp

theorem parts_join (dir : FilePath) (h : IsFileName name) :
    (dir.join ⟨name⟩).parts = dir.steps ++ [name] := by
  have hName : name.toList.splitOn '/' = [name.toList] := List.splitOn_eq_singleton h.notMem
  rw [parts, Text.splitOn_eq]
  rcases join_cases dir h with ⟨-, hSteps, hJoin⟩ | ⟨cs, -, hSteps, hJoin⟩
  · rw [hSteps, hJoin, hName, List.map_singleton, String.ofList_toList, List.nil_append]
  · rw [hSteps, hJoin, List.splitOn_append_cons_self, hName, List.map_append, List.map_singleton,
      String.ofList_toList]

theorem text_join_ne_empty (dir : FilePath) (h : IsFileName name) :
    (dir.join ⟨name⟩).text ≠ "" := by
  intro hEmpty
  rcases join_cases dir h with ⟨-, -, hJoin⟩ | ⟨cs, -, -, hJoin⟩
  · rw [hJoin] at hEmpty
    exact h.ne_empty hEmpty
  · simp [hEmpty] at hJoin

theorem isAbsolute_join (dir : FilePath) (h : IsFileName name) :
    (dir.join ⟨name⟩).isAbsolute = dir.isAbsolute := by
  rw [Bool.eq_iff_iff, isAbsolute_iff, isAbsolute_iff]
  rcases join_cases dir h with ⟨hEmpty, -, hJoin⟩ | ⟨cs, hText, -, hJoin⟩
  · have hName := h.not_isAbsolute
    rw [isAbsolute_iff] at hName
    rw [hJoin, hEmpty]
    simp [hName]
  · rw [hJoin]
    rcases hText with hText | ⟨hText, hne⟩
    · rw [hText]
      cases cs <;> simp
    · rw [hText]
      cases cs with
      | nil => contradiction
      | cons c cs => simp

/-! ### The name of a file -/

theorem notMem_of_mem_parts {p : FilePath} {part : String} (h : part ∈ p.parts) :
    '/' ∉ part.toList := by
  obtain ⟨cs, hcs, rfl⟩ := List.mem_map.mp h
  rw [String.toList_ofList]
  exact Text.notMem_of_mem_splitOn hcs

/-- The parts end with `name` and parts that name nothing. -/
def EndsIn (parts : List String) (name : String) : Prop :=
  ∃ before after, parts = before ++ name :: after ∧ ∀ part ∈ after, isVoid part = true

theorem EndsIn.append {parts : List String} (h : EndsIn parts name) (before : List String) :
    EndsIn (before ++ parts) name := by
  obtain ⟨front, after, rfl, hAfter⟩ := h
  exact ⟨before ++ front, after, (List.append_assoc _ _ _).symm, hAfter⟩

theorem endsIn_of_getLast {parts : List String}
    (h : (parts.reverse.dropWhile isVoid).reverse.getLast? = some name) :
    EndsIn parts name ∧ isVoid name = false := by
  have hSplit := List.rdropWhile_append_rtakeWhile (p := isVoid) (l := parts)
  obtain ⟨before, hParts⟩ := List.getLast?_eq_some_iff.mp h
  rw [List.rdropWhile, hParts, List.append_assoc] at hSplit
  refine ⟨⟨before, _, hSplit.symm, fun part hPart => List.mem_rtakeWhile_imp hPart⟩, ?_⟩
  have hLast := List.rdropWhile_last_not isVoid parts (by rw [List.rdropWhile, hParts]; simp)
  simpa [List.rdropWhile, hParts] using hLast

theorem endsIn_of_fileName {p : FilePath} (h : p.fileName? = some name) :
    EndsIn p.parts name ∧ IsFileName name := by
  rw [fileName?] at h
  split at h
  · next last hLast =>
    split at h
    · contradiction
    · next hDots =>
      obtain rfl := Option.some.inj h
      rw [not_or] at hDots
      have hEnds : EndsIn p.parts last ∧ isVoid last = false := by
        rw [meaningful] at hLast
        split at hLast
        · obtain ⟨hEnds, hVoid⟩ := endsIn_of_getLast hLast
          refine ⟨?_, hVoid⟩
          have hFront := hEnds.append (p.parts.take 1)
          rwa [List.take_append_drop] at hFront
        · split at hLast
          · next parts hParts =>
            rw [List.getLast?_cons] at hLast
            cases hInner : (parts.reverse.dropWhile isVoid).reverse.getLast? with
            | none =>
              rw [hInner] at hLast
              exact absurd (Option.some.inj hLast).symm hDots.1
            | some inner =>
              rw [hInner] at hLast
              obtain rfl : inner = last := Option.some.inj hLast
              obtain ⟨hEnds, hVoid⟩ := endsIn_of_getLast hInner
              rw [hParts]
              exact ⟨hEnds.append ["."], hVoid⟩
          · exact endsIn_of_getLast hLast
      obtain ⟨hEnds, hVoid⟩ := hEnds
      obtain ⟨before, after, hParts, -⟩ := id hEnds
      refine ⟨hEnds, notMem_of_mem_parts (p := p) ?_, hVoid, hDots.2⟩
      rw [hParts]
      simp
  · contradiction

/-! ### The names of documents -/

theorem isPrefix_splitName (name : String) : (splitName name).1.toList <+: name.toList := by
  rw [splitName]
  split
  · next c before hDrop =>
    split
    · exact List.prefix_rfl
    · rw [String.toList_ofList, ← List.reverse_suffix, List.reverse_reverse]
      have hSuffix := List.dropWhile_suffix (l := name.toList.reverse) (· != '.')
      rw [hDrop] at hSuffix
      exact (List.suffix_cons c before).trans hSuffix
  · exact List.prefix_rfl

theorem isFileName_out {p : FilePath} {stem : String} (h : p.stem? = some stem) :
    IsFileName (stem ++ ".out") := by
  obtain ⟨name, hName, rfl⟩ := Option.map_eq_some_iff.mp h
  obtain ⟨-, hFile⟩ := endsIn_of_fileName hName
  have hLong : 4 ≤ ((splitName name).1 ++ ".out").length := by
    have hEnd : ".out".length = 4 := rfl
    rw [String.length_append, hEnd]
    omega
  refine ⟨?_, ?_, ?_⟩
  · have hStem : '/' ∉ (splitName name).1.toList := fun hMem =>
      hFile.notMem ((isPrefix_splitName name).subset hMem)
    simp [hStem]
  · rw [isVoid, Bool.or_eq_false_iff]
    refine ⟨by simp, beq_eq_false_iff_ne.mpr fun hDot => ?_⟩
    rw [hDot] at hLong
    exact absurd hLong (by decide)
  · intro hDots
    rw [hDots] at hLong
    exact absurd hLong (by decide)

theorem splitName_out (stem : String) :
    (splitName (stem ++ ".out")).2 = none ∨ (splitName (stem ++ ".out")).2 = some "out" := by
  have hReverse : (stem ++ ".out").toList.reverse =
      ['t', 'u', 'o', '.'] ++ stem.toList.reverse := by
    simp
  have hTake : (['t', 'u', 'o', '.'] ++ stem.toList.reverse).takeWhile (· != '.') =
      ['t', 'u', 'o'] := rfl
  have hDrop : (['t', 'u', 'o', '.'] ++ stem.toList.reverse).dropWhile (· != '.') =
      '.' :: stem.toList.reverse := rfl
  rw [splitName, hReverse, hTake, hDrop]
  simp only
  split
  · exact .inl rfl
  · exact .inr rfl

end FilePath

/-- The name of a document tells no format of data. -/
theorem DataFile.format?_of_out {p : FilePath} {stem : String}
    (h : p.fileName? = some (stem ++ ".out")) : format? p = none := by
  rw [format?, FilePath.extension?, h]
  show (FilePath.splitName (stem ++ ".out")).2.bind Format.ofExtension? = none
  rcases FilePath.splitName_out stem with hNone | hOut
  · rw [hNone]
    rfl
  · have hLower : "out".map Char.toLower = "out" := by
      apply String.toList_inj.mp
      rw [String.toList_map]
      decide
    rw [hOut, Option.bind_some, Format.ofExtension?, hLower]
    rfl

end DocTemplate
