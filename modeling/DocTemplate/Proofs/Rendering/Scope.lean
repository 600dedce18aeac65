import DocTemplate.Template.Scope

/-! What a scope shows: the value of a path after a section has been entered and outside all
sections, and the passes over the body of a section for each sort of value. -/

namespace DocTemplate

namespace Value

/-- A value that holds no other values. -/
def IsScalar : Value → Prop
  | .null | .bool _ | .number _ | .string _ => True
  | .sequence _ | .mapping _ => False

/-- The values that do not show a section. A double of either sign is zero if its mantissa is. -/
inductive IsFalsy : Value → Prop
  | null : IsFalsy .null
  | bool : IsFalsy (.bool false)
  | int : IsFalsy (.number (.int 0))
  | double (negative : Bool) (exponent : Int) : IsFalsy (.number (.double ⟨negative, 0, exponent⟩))
  | string : IsFalsy (.string "")
  | sequence : IsFalsy (.sequence [])
  | mapping : IsFalsy (.mapping .nil)

theorem isTruthy_eq_false_iff {v : Value} : v.isTruthy = false ↔ v.IsFalsy := by
  constructor
  · intro h
    cases v with
    | null => exact .null
    | bool b =>
      obtain rfl : b = false := h
      exact .bool
    | number n =>
      rw [isTruthy, Bool.not_eq_false'] at h
      cases n with
      | int value =>
        obtain rfl : value = 0 := eq_of_beq h
        exact .int
      | double value =>
        obtain ⟨negative, mantissa, exponent⟩ := value
        obtain rfl : mantissa = 0 := eq_of_beq h
        exact .double negative exponent
    | string s =>
      rw [isTruthy, Bool.not_eq_false', String.isEmpty_iff] at h
      subst h
      exact .string
    | sequence items =>
      rw [isTruthy, Bool.not_eq_false', List.isEmpty_iff] at h
      subst h
      exact .sequence
    | mapping fields =>
      rw [isTruthy, Bool.not_eq_false', FieldsAfter.isEmpty_iff] at h
      subst h
      exact .mapping
  · intro h
    cases h <;> rfl

end Value

namespace Path

theorem segmentsOf_eq_nil_iff {cs : List Char} : segmentsOf cs = [] ↔ cs = [] := by
  cases cs with
  | nil => simp [segmentsOf]
  | cons c cs => simp [segmentsOf, Text.splitOn_ne_nil]

/-- Only the empty name and the dot alone have no segments. -/
theorem isEmpty_parse_iff {name : String} :
    (parse name).isEmpty = true ↔ name = "" ∨ name = "." := by
  rw [isEmpty, List.isEmpty_iff, parse, ← String.toList_inj, ← String.toList_inj]
  split
  · next cs hDot =>
    rw [segmentsOf_eq_nil_iff, hDot]
    simp
  · next cs hNoDot =>
    rw [segmentsOf_eq_nil_iff]
    refine ⟨.inl, fun h => h.resolve_right fun hDot => ?_⟩
    exact hNoDot [] hDot

end Path

namespace Scope

/-! ### Look-ups -/

theorem lookup?_anchored (s : Scope) {p : Path} (h : p.anchored = true) :
    s.lookup? p = s.root.resolve? p.segments := by
  rw [lookup?, if_pos h]

theorem lookup?_push (s : Scope) (f : Frame) {p : Path} (h : p.anchored = false) :
    (s.push f).lookup? p = (f.lookup? p).or (s.lookup? p) := by
  rw [lookup?, lookup?, if_neg (by simp [h]), if_neg (by simp [h])]
  show (f :: s.frames).findSome? _ = _
  rw [List.findSome?_cons]
  cases f.lookup? p <;> rfl

theorem Frame.lookup?_block (v : Value) (p : Path) :
    (⟨v, .block⟩ : Frame).lookup? p = v.resolve? p.segments := by
  rw [Frame.lookup?]
  cases v.resolve? p.segments <;> rfl

/-- The fields of a frame's value come first. -/
theorem Frame.lookup?_of_field {f : Frame} {p : Path} {v : Value}
    (h : f.value.resolve? p.segments = some v) : f.lookup? p = some v := by
  rw [Frame.lookup?, h]

theorem Frame.lookup?_iteration {element : Value} {sect : String} {index : Nat} {p : Path}
    (h : element.resolve? p.segments = none) :
    (⟨element, .iteration sect index⟩ : Frame).lookup? p =
      iterationValue? sect index element p := by
  rw [Frame.lookup?, h]

theorem lookup?_ofRoot (root : Value) (p : Path) :
    (ofRoot root).lookup? p = root.resolve? p.segments := by
  cases hAnchored : p.anchored with
  | true => exact lookup?_anchored _ hAnchored
  | false =>
    rw [lookup?, if_neg (by simp [hAnchored])]
    show ([⟨root, .block⟩] : List Frame).findSome? _ = _
    rw [List.findSome?_cons, List.findSome?_nil, Frame.lookup?_block]
    cases root.resolve? p.segments <;> rfl

/-! ### Passes -/

theorem passesOver_of_isScalar {v : Value} (h : v.IsScalar) (sect : String) :
    passesOver sect v = if v.isTruthy then [none] else [] := by
  cases v with
  | null | bool | number | string => rfl
  | sequence | mapping => exact h.elim

theorem passesOver_sequence (sect : String) (items : List Value) :
    passesOver sect (.sequence items) = (iterations sect 0 items).map some := by
  cases items <;> rfl

theorem passesOver_mapping (sect : String) (fields : Fields) :
    passesOver sect (.mapping fields) =
      if fields.isEmpty then [] else [some ⟨.mapping fields, .block⟩] := by
  cases fields <;> rfl

theorem map_iterations {α : Type} (g : Frame → α) (sect : String) (index : Nat)
    (items : List Value) :
    (iterations sect index items).map g =
      items.mapIdx fun i v => g ⟨v, .iteration sect (index + i)⟩ := by
  induction items generalizing index with
  | nil => rfl
  | cons v vs ih =>
    rw [iterations, List.map_cons, ih, List.mapIdx_cons]
    simp only [Nat.add_assoc, Nat.add_comm 1, Nat.add_zero]

theorem passesOver_of_isFalsy {v : Value} (h : v.IsFalsy) (sect : String) :
    passesOver sect v = [] :=
  if_neg (by simp [Value.isTruthy_eq_false_iff.mpr h])

/-- Outside all sections the name of a section is looked up in the document's data. -/
theorem passes_ofRoot (root : Value) {name : String} (h : (Path.parse name).isEmpty = false) :
    (ofRoot root).passes name (Path.parse name) =
      (root.resolve? (Path.parse name).segments).elim [] (passesOver name) := by
  rw [passes, if_neg (by simp [h]), lookup?_ofRoot]
  cases root.resolve? (Path.parse name).segments <;> rfl

end Scope
end DocTemplate
