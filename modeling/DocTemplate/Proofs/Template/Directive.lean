import DocTemplate.Template.Export
import Mathlib.Data.List.TakeWhile

/-! The grammar of directives. `directive?` reads exactly the directives of the grammar, and a
directive that starts in a text ends in it unless the text goes on with something other than a
brace. -/

namespace DocTemplate

/-- The length of a string in characters' bytes is its size. -/
theorem Text.byteLength_toList (s : String) : byteLength s.toList = s.utf8ByteSize := by
  obtain ⟨cs, rfl⟩ : ∃ cs, s = String.ofList cs := ⟨s.toList, String.ofList_toList.symm⟩
  rw [String.toList_ofList]
  induction cs with
  | nil => simp
  | cons c cs ih =>
    rw [← List.singleton_append, String.ofList_append, String.utf8ByteSize_append, ← ih]
    simp

theorem Text.byteLength_pos {cs : List Char} (h : cs ≠ []) : 0 < byteLength cs := by
  cases cs with
  | nil => exact absurd rfl h
  | cons c cs =>
    have hc := c.utf8Size_pos
    rw [byteLength_cons]
    omega

namespace Token

/-! ### The grammar -/

/-- A letter of the alphabet, large or small. -/
def IsLetter (c : Char) : Prop := ('A' ≤ c ∧ c ≤ 'Z') ∨ ('a' ≤ c ∧ c ≤ 'z')

/-- A character of a section name: `[A-Za-z0-9_.]`. -/
def InName (c : Char) : Prop := IsLetter c ∨ ('0' ≤ c ∧ c ≤ '9') ∨ c = '_' ∨ c = '.'

/-- A section name: `[A-Za-z0-9_.]+`. -/
def IsName (name : List Char) : Prop := name ≠ [] ∧ ∀ c ∈ name, InName c

/-- A variable path: `[A-Za-z_][A-Za-z0-9_.-]*`. -/
def IsPath : List Char → Prop
  | [] => False
  | c :: cs => (IsLetter c ∨ c = '_') ∧ ∀ d ∈ cs, InName d ∨ d = '-'

/-- A kind that is written as a directive, with a name that its directive may hold. No section is
named `end`, and a close has no name of its own. -/
def Kind.IsDirective : Kind → Prop
  | .literal _ => False
  | .var path => IsPath path.toList
  | .opening name => IsName name.toList ∧ name ≠ "end"
  | .closing name => name = none

/-- The text begins with a whole directive. -/
def StartsDirective (cs : List Char) : Prop :=
  ∃ kind : Kind, kind.IsDirective ∧ kind.directiveText.toList <+: cs

theorem isAlpha_iff {c : Char} : c.isAlpha = true ↔ IsLetter c := by
  have hAlpha : c.isAlpha =
      (decide ('A' ≤ c ∧ c ≤ 'Z') || (decide ('a' ≤ c) && decide (c ≤ 'z'))) := rfl
  simp [hAlpha, IsLetter]

theorem isPathStart_iff {c : Char} : isPathStart c = true ↔ IsLetter c ∨ c = '_' := by
  simp [isPathStart, isAlpha_iff]

theorem isNameChar_iff {c : Char} : isNameChar c = true ↔ InName c := by
  have hName : isNameChar c =
      ((c.isAlpha || (decide ('0' ≤ c) && decide (c ≤ '9'))) || c == '_' || c == '.') := rfl
  simp [hName, isAlpha_iff, InName, or_assoc]

theorem isPathChar_iff {c : Char} : isPathChar c = true ↔ InName c ∨ c = '-' := by
  simp [isPathChar, isNameChar_iff]

instance (name : List Char) : Decidable (IsName name) :=
  decidable_of_iff (name ≠ [] ∧ name.all isNameChar = true) (by simp [IsName, isNameChar_iff])

instance (path : List Char) : Decidable (IsPath path) :=
  match path with
  | [] => isFalse id
  | c :: cs => decidable_of_iff (isPathStart c = true ∧ cs.all isPathChar = true)
      (by simp [IsPath, isPathStart_iff, isPathChar_iff])

instance (kind : Kind) : Decidable kind.IsDirective :=
  match kind with
  | .literal _ => isFalse id
  | .var path => inferInstanceAs (Decidable (IsPath path.toList))
  | .opening name => inferInstanceAs (Decidable (IsName name.toList ∧ name ≠ "end"))
  | .closing name => inferInstanceAs (Decidable (name = none))

/-! ### Reading one directive -/

@[simp] theorem toList_closeTag : closeTag.toList = '{' :: '#' :: (closingName ++ ['}']) := rfl

@[simp] theorem toList_openTag (name : String) :
    (openTag name).toList = '{' :: '#' :: (name.toList ++ ['}']) := by
  simp [openTag]

@[simp] theorem toList_varTag (path : String) :
    (varTag path).toList = '{' :: (path.toList ++ ['}']) := by
  simp [varTag]

theorem toList_ofName (name : List Char) :
    (Kind.ofName name).directiveText.toList = '{' :: '#' :: (name ++ ['}']) := by
  unfold Kind.ofName
  split
  · next hEnd => rw [Kind.directiveText, toList_closeTag, hEnd]
  · rw [Kind.directiveText, toList_openTag, String.toList_ofList]

/-- Both structural directives hold a section name, and `end` makes the close. -/
theorem isDirective_ofName {name : List Char} (h : IsName name) :
    (Kind.ofName name).IsDirective := by
  unfold Kind.ofName
  split
  · rfl
  · next hEnd =>
    refine ⟨by rwa [String.toList_ofList], fun hName => hEnd ?_⟩
    rw [← String.toList_ofList (l := name), hName]
    rfl

theorem isName_closingName : IsName closingName := by decide

/-- A kind with a section name is what the name makes. -/
theorem eq_ofName {kind : Kind} (h : kind.IsDirective) (hStructural : kind.isStructural = true) :
    ∃ name, IsName name ∧ kind = Kind.ofName name := by
  cases kind with
  | literal => contradiction
  | var => contradiction
  | opening name =>
    obtain ⟨hName, hEnd⟩ := h
    refine ⟨name.toList, hName, ?_⟩
    have hne : name.toList ≠ closingName := fun hEq =>
      hEnd (String.toList_inj.mp hEq)
    rw [Kind.ofName, if_neg hne, String.ofList_toList]
  | closing name =>
    obtain rfl : name = none := h
    exact ⟨closingName, isName_closingName, rfl⟩

/-- Characters of a class end at a brace that is not in the class. -/
theorem span_brace {p : Char → Bool} {name : List Char} (h : ∀ c ∈ name, p c = true)
    (hBrace : p '}' = false) (rest : List Char) :
    (name ++ '}' :: rest).takeWhile p = name ∧
      (name ++ '}' :: rest).dropWhile p = '}' :: rest := by
  rw [List.takeWhile_append_of_pos h, List.dropWhile_append_of_pos h,
    List.takeWhile_cons_of_neg (by simp [hBrace]), List.dropWhile_cons_of_neg (by simp [hBrace]),
    List.append_nil]
  exact ⟨rfl, rfl⟩

theorem directive?_ofName {name : List Char} (h : IsName name) (rest : List Char) :
    directive? ('{' :: '#' :: (name ++ '}' :: rest)) =
      some (Kind.ofName name, '{' :: '#' :: (name ++ ['}']), rest) := by
  obtain ⟨hne, hChars⟩ := h
  obtain ⟨hTake, hDrop⟩ := span_brace (p := isNameChar)
    (fun c hc => isNameChar_iff.mpr (hChars c hc)) (by decide) rest
  simp only [directive?, hTake, hDrop]
  cases name with
  | nil => contradiction
  | cons c cs => rfl

theorem directive?_var {c : Char} {cs : List Char} (h : IsPath (c :: cs)) (rest : List Char) :
    directive? ('{' :: c :: (cs ++ '}' :: rest)) =
      some (.var (String.ofList (c :: cs)), '{' :: (c :: cs ++ ['}']), rest) := by
  obtain ⟨hStart, hChars⟩ := h
  obtain ⟨hTake, hDrop⟩ := span_brace (p := isPathChar)
    (fun d hd => isPathChar_iff.mpr (hChars d hd)) (by decide) rest
  have hc : c ≠ '#' := by
    rintro rfl
    exact absurd (isPathStart_iff.mpr hStart) (by decide)
  unfold directive?
  split
  · next hEq =>
    simp only [List.cons.injEq, true_and] at hEq
    exact absurd hEq.1 hc
  · next d ds _ hEq =>
    simp only [List.cons.injEq, true_and] at hEq
    obtain ⟨rfl, rfl⟩ := hEq
    rw [if_pos (isPathStart_iff.mpr hStart), hTake, hDrop]
    rfl
  · next hNone => exact absurd rfl (hNone _ _)

/-- Every directive of the grammar is read, whatever follows it. -/
theorem directive?_append {kind : Kind} (h : kind.IsDirective) (rest : List Char) :
    directive? (kind.directiveText.toList ++ rest) =
      some (kind, kind.directiveText.toList, rest) := by
  by_cases hStructural : kind.isStructural = true
  · obtain ⟨name, hName, rfl⟩ := eq_ofName h hStructural
    rw [toList_ofName]
    simpa using directive?_ofName hName rest
  · cases kind with
    | literal => exact h.elim
    | opening => exact absurd rfl hStructural
    | closing => exact absurd rfl hStructural
    | var path =>
      have hPath : IsPath path.toList := h
      rw [Kind.directiveText, toList_varTag]
      cases hCases : path.toList with
      | nil => rw [hCases] at hPath; exact hPath.elim
      | cons c cs =>
        rw [hCases] at hPath
        have hRead := directive?_var hPath rest
        rw [← hCases, String.ofList_toList] at hRead
        simpa [hCases] using hRead

/-- What is read is a directive of the grammar, as it is written. -/
theorem isDirective_of_directive? {cs text rest : List Char} {kind : Kind}
    (h : directive? cs = some (kind, text, rest)) :
    kind.IsDirective ∧ text = kind.directiveText.toList := by
  unfold directive? at h
  split at h
  · next cs =>
    split at h
    · next c name rest' hTake _ =>
      simp only [Option.some.injEq, Prod.mk.injEq] at h
      obtain ⟨rfl, rfl, -⟩ := h
      have hName : IsName (c :: name) := by
        refine ⟨by simp, fun d hd => isNameChar_iff.mp ?_⟩
        rw [← hTake] at hd
        exact List.mem_takeWhile_imp hd
      exact ⟨isDirective_ofName hName, (toList_ofName _).symm⟩
    · contradiction
  · next c cs _ =>
    split at h
    · next hStart =>
      split at h
      · simp only [Option.some.injEq, Prod.mk.injEq] at h
        obtain ⟨rfl, rfl, -⟩ := h
        refine ⟨?_, by simp [Kind.directiveText]⟩
        show IsPath (String.ofList _).toList
        rw [String.toList_ofList]
        exact ⟨isPathStart_iff.mp hStart,
          fun d hd => isPathChar_iff.mp (List.mem_takeWhile_imp hd)⟩
      · contradiction
    · contradiction
  · contradiction

theorem directive?_eq_some_iff {cs text rest : List Char} {kind : Kind} :
    directive? cs = some (kind, text, rest) ↔
      kind.IsDirective ∧ text = kind.directiveText.toList ∧ cs = text ++ rest := by
  constructor
  · intro h
    obtain ⟨hKind, hText⟩ := isDirective_of_directive? h
    exact ⟨hKind, hText, eq_append_of_directive? h⟩
  · rintro ⟨hKind, rfl, rfl⟩
    exact directive?_append hKind rest

theorem directive?_eq_none_iff {cs : List Char} : directive? cs = none ↔ ¬StartsDirective cs := by
  constructor
  · rintro hNone ⟨kind, hKind, rest, rfl⟩
    rw [directive?_append hKind] at hNone
    contradiction
  · intro h
    cases hRead : directive? cs with
    | none => rfl
    | some read =>
      obtain ⟨kind, text, rest⟩ := read
      obtain ⟨hKind, rfl, rfl⟩ := directive?_eq_some_iff.mp hRead
      exact absurd ⟨kind, hKind, List.prefix_append _ _⟩ h

instance (cs : List Char) : Decidable (StartsDirective cs) :=
  decidable_of_iff (directive? cs ≠ none)
    (by rw [ne_eq, directive?_eq_none_iff, Classical.not_not])

/-! ### Where a directive can start -/

theorem IsPath.inName {path : List Char} (h : IsPath path) : ∀ c ∈ path, InName c ∨ c = '-' := by
  cases path with
  | nil => exact h.elim
  | cons c cs =>
    obtain ⟨hStart, hChars⟩ := h
    intro d hd
    rcases List.mem_cons.mp hd with rfl | hTail
    · rcases hStart with hLetter | hLine
      · exact .inl (.inl hLetter)
      · exact .inl (.inr (.inr (.inl hLine)))
    · exact hChars d hTail

/-- A directive has a brace at either end and none between them. -/
theorem exists_directiveText_eq_braces {kind : Kind} (h : kind.IsDirective) :
    ∃ inner, kind.directiveText.toList = '{' :: (inner ++ ['}']) ∧ '{' ∉ inner ∧ '}' ∉ inner := by
  by_cases hStructural : kind.isStructural = true
  · obtain ⟨name, ⟨-, hChars⟩, rfl⟩ := eq_ofName h hStructural
    have hNot : ∀ c, isNameChar c = false → c ∉ name := by
      intro c hc hMem
      rw [isNameChar_iff.mpr (hChars c hMem)] at hc
      contradiction
    refine ⟨'#' :: name, toList_ofName name, ?_, ?_⟩
    · simp [hNot '{' (by decide)]
    · simp [hNot '}' (by decide)]
  · cases kind with
    | literal => exact h.elim
    | opening => exact absurd rfl hStructural
    | closing => exact absurd rfl hStructural
    | var path =>
      have hPath : IsPath path.toList := h
      have hNot : ∀ c, isPathChar c = false → c ∉ path.toList := by
        intro c hc hMem
        rw [isPathChar_iff.mpr (hPath.inName c hMem)] at hc
        contradiction
      exact ⟨_, toList_varTag path, hNot '{' (by decide), hNot '}' (by decide)⟩

/-- A directive has a brace at its start and none after it. -/
theorem exists_directiveText_eq {kind : Kind} (h : kind.IsDirective) :
    ∃ inner, kind.directiveText.toList = '{' :: inner ∧ '{' ∉ inner := by
  obtain ⟨inner, hText, hOpen, -⟩ := exists_directiveText_eq_braces h
  exact ⟨inner ++ ['}'], hText, by simp [hOpen]⟩

theorem StartsDirective.append {cs : List Char} (h : StartsDirective cs) (rest : List Char) :
    StartsDirective (cs ++ rest) := by
  obtain ⟨kind, hKind, hPrefix⟩ := h
  exact ⟨kind, hKind, hPrefix.trans (List.prefix_append _ _)⟩

/-- A directive that starts in a text also ends in it if the text is followed by nothing or by a
brace, because no directive has a brace after its first character. -/
theorem StartsDirective.of_append {cs rest : List Char} (h : StartsDirective (cs ++ rest))
    (hne : cs ≠ []) (hRest : ∀ c ∈ rest.head?, c = '{') : StartsDirective cs := by
  obtain ⟨kind, hKind, hPrefix⟩ := h
  obtain ⟨inner, hText, hBrace⟩ := exists_directiveText_eq hKind
  rcases List.prefix_or_prefix_of_prefix hPrefix (List.prefix_append cs rest) with
    hInside | ⟨beyond, hOver⟩
  · exact ⟨kind, hKind, hInside⟩
  · -- The directive ends `beyond` the text, so it has the brace of `rest` inside.
    rw [← hOver, List.prefix_append_right_inj] at hPrefix
    cases beyond with
    | nil => exact ⟨kind, hKind, by simp [← hOver]⟩
    | cons c beyond =>
      obtain ⟨rest', rfl⟩ := hPrefix
      obtain rfl : c = '{' := hRest c (by simp)
      obtain ⟨d, cs, rfl⟩ := List.exists_cons_of_ne_nil hne
      rw [hText, List.cons_append, List.cons.injEq] at hOver
      exact absurd (by simp [← hOver.2]) hBrace

/-- A directive that starts in a text also ends in it if the text ends with a closing brace, because
no directive has such a brace before its last character. -/
theorem StartsDirective.of_append_brace {cs rest : List Char} (h : StartsDirective (cs ++ rest))
    (hLast : cs.getLast? = some '}') : StartsDirective cs := by
  obtain ⟨kind, hKind, hPrefix⟩ := h
  obtain ⟨inner, hText, -, hBrace⟩ := exists_directiveText_eq_braces hKind
  rcases List.prefix_or_prefix_of_prefix hPrefix (List.prefix_append cs rest) with
    hInside | ⟨beyond, hOver⟩
  · exact ⟨kind, hKind, hInside⟩
  · -- Whatever lies `beyond` the text, the directive has the text's last brace inside.
    rcases List.eq_nil_or_concat beyond with rfl | ⟨beyond, c, rfl⟩
    · exact ⟨kind, hKind, by simp [← hOver]⟩
    · obtain ⟨before, rfl⟩ := List.getLast?_eq_some_iff.mp hLast
      rw [hText, List.concat_eq_append, ← List.append_assoc, ← List.cons_append] at hOver
      have hFront := List.append_inj_left' hOver rfl
      cases before with
      | nil => simp at hFront
      | cons d before =>
        simp only [List.cons_append, List.cons.injEq] at hFront
        exact absurd (by simp [← hFront.2]) hBrace

end Token
end DocTemplate
