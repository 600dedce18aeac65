import DocTemplate.Files.TemplateFile
import DocTemplate.Proofs.Template.Directive
import Mathlib.Data.List.DropRight
import Mathlib.Data.Prod.Lex
import Mathlib.Order.Bounds.Basic

/-! Lines and columns by counting. Between the bytes of a text stand the boundaries of its
characters, and the location of a byte is that of the last boundary up to it. The line and the
column there are what one gets by counting the line feeds before the boundary, and the characters
after the last of them. -/

namespace DocTemplate

namespace Text

/-! ### Boundaries -/

/-- The text has a beginning of `o` bytes: no character lies on both sides of byte `o`. -/
def IsBoundary (cs : List Char) (o : Nat) : Prop := ∃ before, before <+: cs ∧ byteLength before = o

@[simp] theorem takeBytes_zero (cs : List Char) : takeBytes 0 cs = [] := by
  cases cs with
  | nil => rfl
  | cons c cs => exact if_neg (Nat.not_le.mpr c.utf8Size_pos)

theorem takeBytes_append (as bs : List Char) (o : Nat) :
    takeBytes (byteLength as + o) (as ++ bs) = as ++ takeBytes o bs := by
  induction as with
  | nil => rw [byteLength_nil, Nat.zero_add, List.nil_append, List.nil_append]
  | cons c cs ih =>
    rw [byteLength_cons, List.cons_append, takeBytes, if_pos (by omega), Nat.add_assoc,
      Nat.add_sub_cancel_left, ih, List.cons_append]

theorem takeBytes_byteLength (as bs : List Char) : takeBytes (byteLength as) (as ++ bs) = as := by
  have hTake := takeBytes_append as bs 0
  rwa [takeBytes_zero, List.append_nil, Nat.add_zero] at hTake

theorem dropBytes_byteLength (as bs : List Char) : dropBytes (byteLength as) (as ++ bs) = bs := by
  induction as with
  | nil => rw [byteLength_nil, List.nil_append, dropBytes]
  | cons c cs ih =>
    obtain ⟨size, hSize⟩ := Nat.exists_eq_add_one.mpr c.utf8Size_pos
    have hLength : byteLength (c :: cs) = size + byteLength cs + 1 := by
      rw [byteLength_cons, hSize]
      omega
    rw [hLength, List.cons_append, dropBytes, hSize,
      show size + byteLength cs + 1 - (size + 1) = byteLength cs by omega, ih]

theorem takeBytes_isPrefix (o : Nat) (cs : List Char) : takeBytes o cs <+: cs := by
  induction cs generalizing o with
  | nil => exact List.prefix_refl _
  | cons c cs ih =>
    rw [takeBytes]
    split
    · exact List.cons_prefix_cons.mpr ⟨rfl, ih _⟩
    · exact List.nil_prefix

theorem byteLength_takeBytes_le (o : Nat) (cs : List Char) : byteLength (takeBytes o cs) ≤ o := by
  induction cs generalizing o with
  | nil => exact Nat.zero_le o
  | cons c cs ih =>
    rw [takeBytes]
    split
    · have hRest := ih (o - c.utf8Size)
      rw [byteLength_cons]
      omega
    · exact Nat.zero_le o

theorem byteLength_le_of_prefix {as bs : List Char} (h : as <+: bs) :
    byteLength as ≤ byteLength bs := by
  obtain ⟨cs, rfl⟩ := h
  rw [byteLength_append]
  exact Nat.le_add_right _ _

/-- The bytes up to `o` hold every beginning of the text that is not longer. -/
theorem prefix_takeBytes {before cs : List Char} (h : before <+: cs) {o : Nat}
    (hLength : byteLength before ≤ o) : before <+: takeBytes o cs := by
  obtain ⟨after, rfl⟩ := h
  obtain ⟨more, rfl⟩ := Nat.exists_eq_add_of_le hLength
  rw [takeBytes_append]
  exact List.prefix_append _ _

theorem takeBytes_prefix_takeBytes (cs : List Char) {o o' : Nat} (h : o ≤ o') :
    takeBytes o cs <+: takeBytes o' cs :=
  prefix_takeBytes (takeBytes_isPrefix o cs) ((byteLength_takeBytes_le o cs).trans h)

theorem isBoundary_byteLength_takeBytes (o : Nat) (cs : List Char) :
    IsBoundary cs (byteLength (takeBytes o cs)) :=
  ⟨_, takeBytes_isPrefix o cs, rfl⟩

theorem isBoundary_iff {cs : List Char} {o : Nat} :
    IsBoundary cs o ↔ byteLength (takeBytes o cs) = o := by
  constructor
  · rintro ⟨before, ⟨after, rfl⟩, rfl⟩
    rw [takeBytes_byteLength]
  · intro h
    exact h ▸ isBoundary_byteLength_takeBytes o cs

instance (cs : List Char) (o : Nat) : Decidable (IsBoundary cs o) :=
  decidable_of_iff _ isBoundary_iff.symm

theorem IsBoundary.le_byteLength {cs : List Char} {o : Nat} (h : IsBoundary cs o) :
    o ≤ byteLength cs := by
  obtain ⟨before, hPrefix, rfl⟩ := h
  exact byteLength_le_of_prefix hPrefix

theorem IsBoundary.le_takeBytes {cs : List Char} {o position : Nat} (h : IsBoundary cs o)
    (hLe : o ≤ position) : o ≤ byteLength (takeBytes position cs) := by
  obtain ⟨before, hPrefix, rfl⟩ := h
  exact byteLength_le_of_prefix (prefix_takeBytes hPrefix hLe)

/-- Two positions have one last boundary up to them if neither is before that of the other. -/
theorem byteLength_takeBytes_congr {cs : List Char} {o o' : Nat}
    (h : byteLength (takeBytes o cs) ≤ o') (h' : byteLength (takeBytes o' cs) ≤ o) :
    byteLength (takeBytes o cs) = byteLength (takeBytes o' cs) :=
  Nat.le_antisymm ((isBoundary_byteLength_takeBytes o cs).le_takeBytes h)
    ((isBoundary_byteLength_takeBytes o' cs).le_takeBytes h')

theorem byteLength_takeBytes_le_min (position : Nat) (cs : List Char) :
    byteLength (takeBytes position cs) ≤ min position (byteLength cs) :=
  Nat.le_min.mpr ⟨byteLength_takeBytes_le position cs,
    (isBoundary_byteLength_takeBytes position cs).le_byteLength⟩

theorem takeBytes_min (position : Nat) (cs : List Char) :
    byteLength (takeBytes (min position (byteLength cs)) cs) =
      byteLength (takeBytes position cs) :=
  byteLength_takeBytes_congr ((byteLength_takeBytes_le _ cs).trans (Nat.min_le_left _ _))
    (byteLength_takeBytes_le_min position cs)

theorem isGreatest_boundary (cs : List Char) (position : Nat) :
    IsGreatest {o | IsBoundary cs o ∧ o ≤ min position (byteLength cs)}
      (byteLength (takeBytes position cs)) :=
  ⟨⟨isBoundary_byteLength_takeBytes position cs, byteLength_takeBytes_le_min position cs⟩,
    fun _ ho => ho.1.le_takeBytes (Nat.le_min.mp ho.2).1⟩

/-! ### Steps that can fail -/

/-- The last boundary up to byte `o`, looked for one byte at a time. There is nothing before byte
zero to go on with. -/
def lastBoundary? (cs : List Char) : Nat → Option Nat
  | 0 => if IsBoundary cs 0 then some 0 else none
  | o + 1 => if IsBoundary cs (o + 1) then some (o + 1) else lastBoundary? cs o

/-- The part of a text between two of its boundaries, of which the second is not before the
first. -/
def slice? (cs : List Char) (start stop : Nat) : Option (List Char) :=
  if start ≤ stop ∧ IsBoundary cs start ∧ IsBoundary cs stop then
    some (takeBytes (stop - start) (dropBytes start cs))
  else none

theorem lastBoundary?_eq (cs : List Char) (o : Nat) :
    lastBoundary? cs o = some (byteLength (takeBytes o cs)) := by
  induction o with
  | zero => rw [lastBoundary?, takeBytes_zero, byteLength_nil, if_pos ⟨[], List.nil_prefix, rfl⟩]
  | succ o ih =>
    rw [lastBoundary?]
    split
    · next hBoundary => rw [isBoundary_iff.mp hBoundary]
    · next hInside =>
      -- Byte `o + 1` is within a character, so nothing new is taken and the way back goes on.
      have hLe := byteLength_takeBytes_le (o + 1) cs
      have hne : byteLength (takeBytes (o + 1) cs) ≠ o + 1 := mt isBoundary_iff.mpr hInside
      have hBefore : byteLength (takeBytes (o + 1) cs) ≤ o := by omega
      have hNext : byteLength (takeBytes o cs) ≤ o + 1 :=
        Nat.le_succ_of_le (byteLength_takeBytes_le o cs)
      rw [ih, byteLength_takeBytes_congr hNext hBefore]

theorem slice?_append (front part rest : List Char) :
    slice? (front ++ part ++ rest) (byteLength front) (byteLength (front ++ part)) =
      some part := by
  rw [slice?, if_pos, List.append_assoc, dropBytes_byteLength, byteLength_append,
    Nat.add_sub_cancel_left, takeBytes_byteLength]
  refine ⟨?_, ⟨front, ?_, rfl⟩, ⟨front ++ part, List.prefix_append _ _, rfl⟩⟩
  · rw [byteLength_append]
    exact Nat.le_add_right _ _
  · rw [List.append_assoc]
    exact List.prefix_append _ _

theorem eq_of_slice? {cs : List Char} {start stop : Nat} {part : List Char}
    (h : slice? cs start stop = some part) : takeBytes (stop - start) (dropBytes start cs) = part := by
  rw [slice?] at h
  split at h
  · exact Option.some.inj h
  · contradiction

end Text

/-! ### The place after a text -/

namespace Location

/-- The place right after a text: its line feeds count the lines, and the characters after the
last of them the columns. -/
def after (before : List Char) : Location :=
  ⟨1 + before.count '\n', 1 + (before.rtakeWhile (· ≠ '\n')).length⟩

/-- Places of a text in the order of reading. -/
def inOrder (l : Location) : Nat ×ₗ Nat := toLex (l.line, l.column)

/-- One more character starts a line or is one more column. -/
theorem after_snoc (before : List Char) (c : Char) :
    after (before ++ [c]) =
      if c = '\n' then ⟨(after before).line + 1, 1⟩
      else ⟨(after before).line, (after before).column + 1⟩ := by
  split
  · next h =>
    subst h
    simp [after, Nat.add_assoc]
  · next h => simp [after, h, Nat.add_assoc]

theorem inOrder_after_snoc (before : List Char) (c : Char) :
    (after before).inOrder < (after (before ++ [c])).inOrder := by
  rw [after_snoc, inOrder, inOrder, Prod.Lex.toLex_lt_toLex]
  split
  · exact .inl (Nat.lt_succ_self _)
  · exact .inr ⟨rfl, Nat.lt_succ_self _⟩

theorem inOrder_after_append (before : List Char) {more : List Char} (h : more ≠ []) :
    (after before).inOrder < (after (before ++ more)).inOrder := by
  induction more using List.reverseRecOn with
  | nil => exact absurd rfl h
  | append_singleton more c ih =>
    rw [← List.append_assoc]
    by_cases hMore : more = []
    · rw [hMore, List.append_nil]
      exact inOrder_after_snoc before c
    · exact (ih hMore).trans (inOrder_after_snoc (before ++ more) c)

end Location

namespace LineIndex

/-! ### The table of lines -/

theorem startsAfter_append (position : Nat) (as bs : List Char) :
    startsAfter position (as ++ bs) =
      startsAfter position as ++ startsAfter (position + Text.byteLength as) bs := by
  induction as generalizing position with
  | nil => rfl
  | cons c cs ih =>
    simp only [List.cons_append, startsAfter, ih, Text.byteLength_cons, Nat.add_assoc]
    split <;> rfl

theorem length_startsAfter (position : Nat) (cs : List Char) :
    (startsAfter position cs).length = cs.count '\n' := by
  induction cs generalizing position with
  | nil => rfl
  | cons c cs ih =>
    rw [startsAfter, List.count_cons]
    split
    · next h => simp [ih, h]
    · next h => simp [ih, h]

/-- A line starts after the position where its text stands and not after the end of that text. -/
theorem bounds_startsAfter {position : Nat} {cs : List Char} {start : Nat}
    (h : start ∈ startsAfter position cs) :
    position < start ∧ start ≤ position + Text.byteLength cs := by
  induction cs generalizing position with
  | nil => contradiction
  | cons c cs ih =>
    have hSize := c.utf8Size_pos
    rw [Text.byteLength_cons]
    rw [startsAfter] at h
    split at h
    · obtain rfl | h := List.mem_cons.mp h
      · omega
      · have hRest := ih h
        omega
    · have hRest := ih h
      omega

theorem pairwise_startsAfter (position : Nat) (cs : List Char) :
    (startsAfter position cs).Pairwise (· < ·) := by
  induction cs generalizing position with
  | nil => exact List.Pairwise.nil
  | cons c cs ih =>
    rw [startsAfter]
    split
    · exact List.pairwise_cons.mpr ⟨fun _ h => (bounds_startsAfter h).1, ih _⟩
    · exact ih _

theorem pairwise_starts (raw : String) : (ofText raw).starts.Pairwise (· < ·) :=
  List.pairwise_cons.mpr ⟨fun _ h => (bounds_startsAfter h).1, pairwise_startsAfter 0 _⟩

/-- The lines that start up to the end of a beginning of the text are those of the beginning. -/
theorem takeWhile_starts (before rest : List Char) :
    (0 :: startsAfter 0 (before ++ rest)).takeWhile (· ≤ Text.byteLength before) =
      0 :: startsAfter 0 before := by
  rw [startsAfter_append, ← List.cons_append, List.takeWhile_append_of_pos]
  · rw [Nat.zero_add]
    cases hStarts : startsAfter (Text.byteLength before) rest with
    | nil => simp
    | cons start starts =>
      have hStart := (bounds_startsAfter (hStarts ▸ List.mem_cons_self)).1
      rw [List.takeWhile_cons_of_neg (by simpa using hStart), List.append_nil]
  · intro start hStart
    obtain rfl | hStart := List.mem_cons.mp hStart
    · simp
    · have hBounds := (bounds_startsAfter hStart).2
      simpa using hBounds

/-- The last line of a text starts where the characters after its last line feed do. -/
theorem getLast?_starts (before : List Char) :
    (0 :: startsAfter 0 before).getLast? =
      some (Text.byteLength (before.rdropWhile (· ≠ '\n'))) := by
  -- From the end: a line feed starts a line after itself, and other characters start none.
  induction before using List.reverseRecOn with
  | nil => rfl
  | append_singleton before c ih =>
    rw [startsAfter_append, ← List.cons_append]
    by_cases h : c = '\n'
    · rw [List.rdropWhile_concat_neg _ _ _ (by simpa using h), startsAfter, if_pos h,
        List.getLast?_append, Nat.zero_add, Text.byteLength_append]
      rfl
    · rw [List.rdropWhile_concat_pos _ _ _ (by simpa using h), startsAfter, if_neg h, startsAfter,
        List.append_nil, ih]

/-! ### The place of a byte -/

/-- `location` with every step checked: the way back to a boundary stays in the text, the line is
in the table, and the part of the line before the boundary is a slice of the text. -/
def location? (index : LineIndex) (position : Nat) : Option Location := do
  let offset ← Text.lastBoundary? index.text (min position (Text.byteLength index.text))
  let line := (index.starts.takeWhile (· ≤ offset)).length
  let start ← if line = 0 then none else index.starts[line - 1]?
  let part ← Text.slice? index.text start offset
  return ⟨line, part.length + 1⟩

section
variable (raw : String) (position : Nat)

theorem takeWhile_starts_ofText :
    (ofText raw).starts.takeWhile (· ≤ Text.byteLength (Text.takeBytes position raw.toList)) =
      0 :: startsAfter 0 (Text.takeBytes position raw.toList) := by
  obtain ⟨rest, hText⟩ := Text.takeBytes_isPrefix position raw.toList
  rw [← takeWhile_starts _ rest, hText]
  rfl

theorem getElem?_starts_ofText :
    (ofText raw).starts[(Text.takeBytes position raw.toList).count '\n']? =
      some (Text.byteLength
        ((Text.takeBytes position raw.toList).rdropWhile (· ≠ '\n'))) := by
  obtain ⟨more, hStarts⟩ :=
    takeWhile_starts_ofText raw position ▸ List.takeWhile_prefix (l := (ofText raw).starts) _
  rw [← length_startsAfter 0, ← hStarts, List.getElem?_append_left (by simp), ← getLast?_starts,
    List.getLast?_eq_getElem?]
  rfl

theorem slice?_ofText :
    Text.slice? raw.toList
        (Text.byteLength ((Text.takeBytes position raw.toList).rdropWhile (· ≠ '\n')))
        (Text.byteLength (Text.takeBytes position raw.toList)) =
      some ((Text.takeBytes position raw.toList).rtakeWhile (· ≠ '\n')) := by
  obtain ⟨rest, hText⟩ := Text.takeBytes_isPrefix position raw.toList
  generalize Text.takeBytes position raw.toList = before at hText ⊢
  have hSlice := Text.slice?_append (before.rdropWhile (· ≠ '\n'))
    (before.rtakeWhile (· ≠ '\n')) rest
  rwa [List.rdropWhile_append_rtakeWhile, hText] at hSlice

theorem location_ofText_eq :
    (ofText raw).location position = .after (Text.takeBytes position raw.toList) := by
  have hBoundary : (ofText raw).boundary position =
      Text.byteLength (Text.takeBytes position raw.toList) := rfl
  have hText : (ofText raw).text = raw.toList := rfl
  simp only [location, hBoundary, takeWhile_starts_ofText, List.getLastD_eq_getLast?,
    getLast?_starts, Option.getD_some]
  rw [hText, Text.eq_of_slice? (slice?_ofText raw position), List.length_cons, length_startsAfter,
    Location.after, Nat.add_comm, Nat.add_comm 1 (List.length _)]

/-- No step of the look-up fails. -/
theorem location?_ofText_eq :
    (ofText raw).location? position =
      some (.after (Text.takeBytes position raw.toList)) := by
  have hText : (ofText raw).text = raw.toList := rfl
  simp only [location?, hText, Text.lastBoundary?_eq, Text.takeBytes_min, Option.bind_eq_bind,
    Option.bind_some, takeWhile_starts_ofText, List.length_cons, length_startsAfter,
    Nat.succ_ne_zero, if_false, Nat.add_sub_cancel, getElem?_starts_ofText, slice?_ofText]
  rw [Location.after, Nat.add_comm, Nat.add_comm 1 (List.length _)]
  rfl

end

theorem monotone_location (raw : String) :
    Monotone fun position => ((ofText raw).location position).inOrder := by
  intro position position' hLe
  obtain ⟨more, hMore⟩ := Text.takeBytes_prefix_takeBytes raw.toList hLe
  simp only [location_ofText_eq, ← hMore]
  by_cases hNil : more = []
  · rw [hNil, List.append_nil]
  · exact (Location.inOrder_after_append _ hNil).le

/-- A boundary is a later place than every position before it. -/
theorem location_lt (raw : String) {position o : Nat} (hLt : position < o)
    (hBoundary : Text.IsBoundary raw.toList o) :
    ((ofText raw).location position).inOrder < ((ofText raw).location o).inOrder := by
  obtain ⟨more, hMore⟩ := Text.takeBytes_prefix_takeBytes raw.toList hLt.le
  have hLength : Text.byteLength (Text.takeBytes position raw.toList ++ more) = o := by
    rw [hMore, Text.isBoundary_iff.mp hBoundary]
  -- The text up to the position is not longer than that, so the boundary has more before it.
  have hNil : more ≠ [] := by
    rintro rfl
    have hLe := Text.byteLength_takeBytes_le position raw.toList
    rw [List.append_nil] at hLength
    omega
  rw [location_ofText_eq, location_ofText_eq, ← hMore]
  exact Location.inOrder_after_append _ hNil

theorem injOn_location (raw : String) :
    Set.InjOn (ofText raw).location {o | Text.IsBoundary raw.toList o} := by
  intro o ho o' ho' hEq
  obtain hLt | hEqual | hGt := Nat.lt_trichotomy o o'
  · exact absurd (congrArg Location.inOrder hEq) (location_lt raw hLt ho').ne
  · exact hEqual
  · exact absurd (congrArg Location.inOrder hEq) (location_lt raw hGt ho).ne'

/-- The line and the column of a byte are counted up to the last boundary of a character that is
neither after the byte nor after the end: one more than the line feeds before it, and one more than
the characters between the last of these and it. The table of lines is in order and no step of the
look-up fails. Later bytes have no earlier places, and no two boundaries have the same. Diagnostics
and template files tell the same places. -/
theorem location_ofText (raw : String) :
    (ofText raw).starts.Pairwise (· < ·) ∧
      (∀ position, ∃ before rest, raw.toList = before ++ rest ∧
        IsGreatest {o | Text.IsBoundary raw.toList o ∧ o ≤ min position raw.utf8ByteSize}
          (Text.byteLength before) ∧
        (ofText raw).location position =
          ⟨1 + before.count '\n', 1 + (before.rtakeWhile (· ≠ '\n')).length⟩ ∧
        (ofText raw).location? position = some ((ofText raw).location position)) ∧
      (Monotone fun position => ((ofText raw).location position).inOrder) ∧
      Set.InjOn (ofText raw).location {o | Text.IsBoundary raw.toList o} ∧
      ∀ d : Diagnostic, d.location raw = (ofText raw).location d.position ∧
        ∀ path, (TemplateFile.ofText path raw).location d = (ofText raw).location d.position := by
  refine ⟨pairwise_starts raw, fun position => ?_, monotone_location raw, injOn_location raw,
    fun d => ⟨rfl, fun path => rfl⟩⟩
  obtain ⟨rest, hText⟩ := Text.takeBytes_isPrefix position raw.toList
  have hLocation := location_ofText_eq raw position
  have hChecked := location?_ofText_eq raw position
  rw [← hLocation] at hChecked
  refine ⟨_, rest, hText.symm, ?_, hLocation, hChecked⟩
  rw [← Text.byteLength_toList]
  exact Text.isGreatest_boundary raw.toList position

-- In a character, at a line feed, after it, at the end and past the end.
example : [1, 2, 3, 4, 9].map (ofText "é\nb").location =
    [⟨1, 1⟩, ⟨1, 2⟩, ⟨2, 1⟩, ⟨2, 2⟩, ⟨2, 2⟩] := by decide

end LineIndex
end DocTemplate
