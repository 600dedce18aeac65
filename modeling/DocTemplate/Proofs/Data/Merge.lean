import DocTemplate.Proofs.Data.Fields
import Mathlib.Data.List.Infix

/-! What merged data holds along a path of keys. Under a key stands what the lower layer has there
merged with what the upper one has, and by induction the same is so at the end of a path, as long
as the upper layer has nothing but mappings on the way. Where it has another value, that value
replaces all that was below. -/

namespace DocTemplate

namespace Value

/-- The value under a key of a mapping. -/
def field? (key : String) : Value → Option Value
  | .mapping fields => fields.get? key
  | .null | .bool _ | .number _ | .string _ | .sequence _ => none

/-- The value at the end of a path of keys, through mappings alone. -/
def atKeys? (v : Value) : List String → Option Value
  | [] => some v
  | key :: keys => (v.field? key).bind fun w => w.atKeys? keys

/-- The value has a mapping, or nothing, at every place of the path before its end. -/
def MappingsBefore (v : Value) (path : List String) : Prop :=
  ∀ front w, front <+: path → front ≠ path → v.atKeys? front = some w → w.isMapping

end Value

/-! ### One mapping over another -/

namespace Fields

theorem get?_merge (base : Fields) {before : Option String} (overrides : FieldsAfter Value before)
    (key : String) :
    (merge base overrides).get? key =
      Option.merge Value.merge (base.get? key) (overrides.get? key) := by
  induction overrides generalizing base with
  | nil => rw [merge, FieldsAfter.get?, Option.merge_none_right]
  | cons other _ v overrides ih =>
    rw [merge, ih, FieldsAfter.get?_put, FieldsAfter.get?]
    by_cases hKey : other = key
    · subst hKey
      -- The key does not come again, so what is put under it now stays.
      rw [if_pos rfl, if_pos rfl, FieldsAfter.get?_eq_none, Option.merge_none_right]
      cases base.get? other <;> rfl
    · rw [if_neg hKey, if_neg hKey]

theorem mem_keys_merge {base overrides : Fields} {key : String} :
    key ∈ (merge base overrides).keys ↔ key ∈ base.keys ∨ key ∈ overrides.keys := by
  simp only [← FieldsAfter.isSome_get?_iff, get?_merge, Option.isSome_merge, Bool.or_eq_true]

end Fields

namespace Value

variable {a b : Value}

theorem field?_of_not_mapping {v : Value} (h : v.isMapping = false) (key : String) :
    v.field? key = none := by
  cases v <;> simp_all [field?, isMapping]

theorem merge_mapping (base overrides : Fields) :
    (mapping base).merge (mapping overrides) = mapping (Fields.merge base overrides) := by
  rw [merge]

/-- What is no mapping replaces all that was there. -/
theorem merge_of_not_mapping (a : Value) (h : b.isMapping = false) : a.merge b = b := by
  cases b <;> simp_all [merge, isMapping]

/-- Of what is no mapping nothing is left under a mapping. -/
theorem not_mapping_merge (h : a.isMapping = false) (b : Value) : a.merge b = b := by
  cases b with
  | mapping fields => cases a <;> simp_all [merge, isMapping]
  | _ => rw [merge]

theorem field?_merge (hMapping : b.isMapping) (key : String) :
    (a.merge b).field? key = Option.merge merge (a.field? key) (b.field? key) := by
  obtain ⟨overrides, rfl⟩ := isMapping_iff.mp hMapping
  rcases a.mapping_or_not with ⟨base, rfl⟩ | ha
  · rw [merge_mapping]
    exact Fields.get?_merge base overrides key
  · rw [not_mapping_merge ha, field?_of_not_mapping ha, Option.merge_none_left]

/-! ### Paths -/

theorem atKeys?_cons (v : Value) (key : String) (keys : List String) :
    v.atKeys? (key :: keys) = (v.field? key).bind fun w => w.atKeys? keys := rfl

theorem atKeys?_append (v : Value) (front back : List String) :
    v.atKeys? (front ++ back) = (v.atKeys? front).bind fun w => w.atKeys? back := by
  induction front generalizing v with
  | nil => rfl
  | cons key front ih =>
    rw [List.cons_append, atKeys?_cons, atKeys?_cons, Option.bind_assoc]
    exact congrArg _ (funext ih)

theorem atKeys?_below {v w : Value} {front path : List String} (hFront : front <+: path)
    (hProper : front ≠ path) (hw : v.atKeys? front = some w) (h : w.isMapping = false) :
    v.atKeys? path = none := by
  obtain ⟨back, rfl⟩ := hFront
  rw [atKeys?_append, hw, Option.bind_some]
  cases back with
  | nil => simp at hProper
  | cons key keys => rw [atKeys?_cons, field?_of_not_mapping h, Option.bind_none]

theorem mappingsBefore_of_atKeys? {v w : Value} {path : List String} (h : v.atKeys? path = some w) :
    v.MappingsBefore path := by
  intro front u hFront hProper hu
  by_contra hMapping
  rw [Bool.not_eq_true] at hMapping
  rw [atKeys?_below hFront hProper hu hMapping] at h
  contradiction

theorem mappingsBefore_cons {v : Value} {key : String} {keys : List String} :
    v.MappingsBefore (key :: keys) ↔
      v.isMapping ∧ ∀ w, v.field? key = some w → w.MappingsBefore keys := by
  constructor
  · intro h
    refine ⟨h [] v List.nil_prefix (by simp) rfl, fun w hw front u hFront hProper hu => ?_⟩
    refine h (key :: front) u (List.cons_prefix_cons.mpr ⟨rfl, hFront⟩) (by simpa using hProper) ?_
    rw [atKeys?_cons, hw, Option.bind_some, hu]
  · intro ⟨hMapping, h⟩ front u hFront hProper hu
    cases front with
    | nil => exact Option.some.inj hu ▸ hMapping
    | cons other front =>
      obtain ⟨rfl, hRest⟩ := List.cons_prefix_cons.mp hFront
      obtain ⟨w, hw, hu⟩ := Option.bind_eq_some_iff.mp hu
      exact h w hw front u hRest (by simpa using hProper) hu

/-- Along mappings of the upper layer, what is merged at the end is what the two layers have there,
the one over the other. -/
theorem atKeys?_merge_of_mappings {path : List String} (h : b.MappingsBefore path) :
    (a.merge b).atKeys? path = Option.merge merge (a.atKeys? path) (b.atKeys? path) := by
  induction path generalizing a b with
  | nil => rfl
  | cons key keys ih =>
    obtain ⟨hMapping, hInner⟩ := mappingsBefore_cons.mp h
    rw [atKeys?_cons, atKeys?_cons, atKeys?_cons, field?_merge hMapping]
    -- The path goes on in both layers only if both have the key.
    cases hw : b.field? key with
    | none => rw [Option.merge_none_right, Option.bind_none, Option.merge_none_right]
    | some w =>
      cases a.field? key with
      | none => rw [Option.merge_none_left, Option.bind_none, Option.merge_none_left]
      | some u => exact ih (hInner w hw)

theorem atKeys?_merge_of_not_mapping {path : List String} {v : Value}
    (hv : b.atKeys? path = some v) (h : v.isMapping = false) :
    (a.merge b).atKeys? path = some v := by
  rw [atKeys?_merge_of_mappings (mappingsBefore_of_atKeys? hv), hv]
  cases a.atKeys? path with
  | none => rw [Option.merge_none_left]
  | some u => rw [Option.merge_some_some, merge_of_not_mapping u h]

/-- The mapping that stands where the upper layer has one: that one over what the lower layer has
there, or that one alone. -/
theorem atKeys?_merge_of_mapping {path : List String} {fields : Fields}
    (hv : b.atKeys? path = some (mapping fields)) :
    ∃ merged, (a.merge b).atKeys? path = some (mapping merged) ∧
      (∀ u, a.atKeys? path = some u → mapping merged = u.merge (mapping fields)) ∧
      (a.atKeys? path = none → merged = fields) ∧
      ∀ base, a.atKeys? path = some (mapping base) → ∀ key,
        key ∈ merged.keys ↔ key ∈ base.keys ∨ key ∈ fields.keys := by
  rw [atKeys?_merge_of_mappings (mappingsBefore_of_atKeys? hv), hv]
  cases hu : a.atKeys? path with
  | none => exact ⟨fields, by simp⟩
  | some u =>
    rcases u.mapping_or_not with ⟨base, rfl⟩ | hOther
    · refine ⟨Fields.merge base fields, ?_, by simp [merge_mapping], by simp, ?_⟩
      · rw [Option.merge_some_some, merge_mapping]
      · rintro _ ⟨⟩ key
        exact Fields.mem_keys_merge
    · refine ⟨fields, ?_, ?_, by simp, ?_⟩
      · rw [Option.merge_some_some, not_mapping_merge hOther]
      · rintro _ ⟨⟩
        rw [not_mapping_merge hOther]
      · rintro _ ⟨⟩
        contradiction

/-- What merged data has at the end of a path: a value of the upper layer that is no mapping,
nothing below such a value, what the lower layer has where the upper one has nothing on mappings
all the way, and a mapping of the upper layer over what the lower one has there. It has nothing at
a path that neither layer has. -/
theorem atKeys?_merge (a b : Value) (path : List String) :
    (∀ v, b.atKeys? path = some v → v.isMapping = false → (a.merge b).atKeys? path = some v) ∧
    (∀ front v, front <+: path → front ≠ path → b.atKeys? front = some v → v.isMapping = false →
      (a.merge b).atKeys? path = none) ∧
    (b.atKeys? path = none → b.MappingsBefore path →
      (a.merge b).atKeys? path = a.atKeys? path) ∧
    (∀ fields, b.atKeys? path = some (mapping fields) →
      ∃ merged, (a.merge b).atKeys? path = some (mapping merged) ∧
        (∀ u, a.atKeys? path = some u → mapping merged = u.merge (mapping fields)) ∧
        (a.atKeys? path = none → merged = fields) ∧
        ∀ base, a.atKeys? path = some (mapping base) → ∀ key,
          key ∈ merged.keys ↔ key ∈ base.keys ∨ key ∈ fields.keys) ∧
    ((a.merge b).atKeys? path ≠ none → a.atKeys? path ≠ none ∨ b.atKeys? path ≠ none) := by
  have hBelow : ∀ front v, front <+: path → front ≠ path → b.atKeys? front = some v →
      v.isMapping = false → (a.merge b).atKeys? path = none :=
    fun front v hFront hProper hv h =>
      atKeys?_below hFront hProper (atKeys?_merge_of_not_mapping hv h) h
  refine ⟨fun v hv h => atKeys?_merge_of_not_mapping hv h, hBelow, ?_,
    fun fields hv => atKeys?_merge_of_mapping hv, ?_⟩
  · intro hNone hMappings
    rw [atKeys?_merge_of_mappings hMappings, hNone, Option.merge_none_right]
  · intro hSome
    by_cases hMappings : b.MappingsBefore path
    · rw [atKeys?_merge_of_mappings hMappings, ne_eq, Option.merge_eq_none_iff] at hSome
      tauto
    · -- The path leads through a value of the upper layer that is no mapping.
      simp only [MappingsBefore, not_forall, Bool.not_eq_true] at hMappings
      obtain ⟨front, v, hFront, hProper, hv, h⟩ := hMappings
      exact absurd (hBelow front v hFront hProper hv h) hSome

theorem atKeys?_merge_conflicts :
    let a := mapping (.ofList [("s", bool true), ("x", mapping (.ofList
      [("y", number (.int 1)), ("z", mapping (.ofList [("k", number (.int 2))]))]))])
    let b := mapping (.ofList [("t", null), ("x", mapping (.ofList
      [("y", mapping (.ofList [("w", string "é")])), ("z", number (.int 5))]))])
    (a.merge b).atKeys? ["x", "z"] = some (number (.int 5)) ∧
      (a.merge b).atKeys? ["x", "z", "k"] = none ∧
      (a.merge b).atKeys? ["s"] = some (bool true) := by
  intro a b
  refine ⟨?_, ?_, ?_⟩
  · exact (atKeys?_merge a b ["x", "z"]).1 _ rfl rfl
  · exact (atKeys?_merge a b ["x", "z", "k"]).2.1 ["x", "z"] _ (by decide) (by decide) rfl rfl
  · have hMappings : b.MappingsBefore ["s"] :=
      mappingsBefore_cons.mpr ⟨rfl, fun w hw => by contradiction⟩
    exact (atKeys?_merge a b ["s"]).2.2.1 rfl hMappings

end Value
end DocTemplate
