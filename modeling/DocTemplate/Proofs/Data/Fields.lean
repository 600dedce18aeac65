import DocTemplate.Data.Layer
import Mathlib.Data.String.Basic

/-! The fields of mappings. A put field is the one found under its key, and the others are found as
before. As keys increase, fields are told by what is found under each key. Whether values are the
same is decided. -/

namespace DocTemplate

theorem Follows.trans_lt {before : Option String} {k key : String} (h : Follows before k)
    (hAfter : k < key) : Follows before key := fun b hb => (h b hb).trans hAfter

namespace FieldsAfter

variable {α : Type} {before : Option String}

/-! ### Look-ups -/

/-- The keys of fields, in their order. -/
def keys {before : Option String} : FieldsAfter α before → List String
  | nil => []
  | cons key _ _ rest => key :: rest.keys

theorem get?_insert {key : String} (h : Follows before key) (k : String) (v : α)
    (fields : FieldsAfter α before) :
    (fields.insert key v h).get? k = if key = k then some v else fields.get? k := by
  induction fields with
  | nil => rfl
  | cons other hOther w rest ih =>
    rw [insert]
    split
    · next hSame =>
      subst hSame
      rw [get?, get?]
      split <;> rfl
    · next hDifferent =>
      split
      · rw [get?, get?, get?]
      · rw [get?, get?, ih]
        by_cases hKey : other = k
        · subst hKey
          rw [if_pos rfl, if_neg hDifferent, if_pos rfl]
        · rw [if_neg hKey, if_neg hKey]

theorem get?_put (key k : String) (v : α) (fields : FieldsAfter α none) :
    (fields.put key v).get? k = if key = k then some v else fields.get? k :=
  get?_insert (follows_none key) k v fields

theorem isSome_get?_iff {key : String} {fields : FieldsAfter α before} :
    (fields.get? key).isSome ↔ key ∈ fields.keys := by
  induction fields with
  | nil => simp [get?, keys]
  | cons other hOther w rest ih =>
    rw [get?, keys, List.mem_cons, ← ih]
    split
    · next hKey => simp [hKey]
    · next hKey => simp [Ne.symm hKey]

/-- What is found stands after the bound. -/
theorem follows_of_get? {key : String} {v : α} {fields : FieldsAfter α before}
    (h : fields.get? key = some v) : Follows before key := by
  induction fields with
  | nil => contradiction
  | cons other hOther w rest ih =>
    rw [get?] at h
    split at h
    · next hKey => exact hKey ▸ hOther
    · exact hOther.trans_lt (follows_some.mp (ih h))

theorem get?_eq_none {key : String} (fields : FieldsAfter α (some key)) :
    fields.get? key = none := by
  by_contra hSome
  obtain ⟨v, hv⟩ := Option.ne_none_iff_exists'.mp hSome
  exact lt_irrefl key (follows_some.mp (follows_of_get? hv))

/-- Fields are told by what is found under each key. -/
theorem ext {fs gs : FieldsAfter α before} (h : ∀ key, fs.get? key = gs.get? key) : fs = gs := by
  induction fs with
  | nil =>
    cases gs with
    | nil => rfl
    | cons key hKey w gs => simpa [get?] using h key
  | cons key hKey v fs ih =>
    cases gs with
    | nil => simpa [get?] using h key
    | cons key' hKey' w gs =>
      -- The first key of each is found in the other, and neither comes before the other.
      have hSame : key = key' := by
        by_contra hDifferent
        have hIn : gs.get? key = some v := by simpa [get?, Ne.symm hDifferent] using (h key).symm
        have hIn' : fs.get? key' = some w := by simpa [get?, hDifferent] using h key'
        exact lt_asymm (follows_some.mp (follows_of_get? hIn))
          (follows_some.mp (follows_of_get? hIn'))
      subst hSame
      have hValue : v = w := by simpa [get?] using h key
      subst hValue
      rw [ih fun k => ?_]
      by_cases hk : key = k
      · subst hk
        rw [get?_eq_none, get?_eq_none]
      · simpa [get?, hk] using h k

theorem sizeOf_lt_of_get? {key : String} {v : Value} {fields : FieldsAfter Value before}
    (h : fields.get? key = some v) : sizeOf v < sizeOf fields := by
  induction fields with
  | nil => contradiction
  | cons other hOther w rest ih =>
    rw [cons.sizeOf_spec]
    rw [get?] at h
    split at h
    · rw [Option.some.inj h]
      omega
    · have hRest := ih h
      omega

end FieldsAfter

namespace Value

/-! ### Equality of values -/

mutual

def same : Value → Value → Bool
  | .null, .null => true
  | .bool a, .bool b => a == b
  | .number a, .number b => a == b
  | .string a, .string b => a == b
  | .sequence a, .sequence b => sameItems a b
  | .mapping a, .mapping b => sameFields a b
  | _, _ => false

def sameItems : List Value → List Value → Bool
  | [], [] => true
  | v :: vs, w :: ws => v.same w && sameItems vs ws
  | _, _ => false

def sameFields {before before' : Option String} :
    FieldsAfter Value before → FieldsAfter Value before' → Bool
  | .nil, .nil => true
  | .cons key _ v fields, .cons key' _ w fields' =>
    key == key' && v.same w && sameFields fields fields'
  | _, _ => false

end

mutual

theorem same_iff : ∀ {v w : Value}, v.same w = true ↔ v = w
  | .null, w | .bool _, w | .number _, w | .string _, w => by cases w <;> simp [same]
  | .sequence items, w => by cases w <;> simp [same, sameItems_iff]
  | .mapping fields, w => by cases w <;> simp [same, sameFields_iff]

theorem sameItems_iff : ∀ {vs ws : List Value}, sameItems vs ws = true ↔ vs = ws
  | [], ws => by cases ws <;> simp [sameItems]
  | v :: vs, ws => by cases ws <;> simp [sameItems, same_iff, sameItems_iff]

theorem sameFields_iff {before : Option String} : ∀ {fields fields' : FieldsAfter Value before},
    sameFields fields fields' = true ↔ fields = fields'
  | .nil, fields' => by cases fields' <;> simp [sameFields]
  | .cons key _ v fields, .nil => by simp [sameFields]
  | .cons key _ v fields, .cons key' _ w fields' => by
    by_cases hKey : key = key'
    · subst hKey
      simp [sameFields, same_iff, sameFields_iff]
    · simp [sameFields, hKey]

end

instance : DecidableEq Value := fun _ _ => decidable_of_iff _ same_iff

/-! ### Induction along keys -/

def isMapping : Value → Bool
  | .mapping _ => true
  | .null | .bool _ | .number _ | .string _ | .sequence _ => false

theorem isMapping_iff {v : Value} : v.isMapping ↔ ∃ fields, v = mapping fields := by
  cases v <;> simp [isMapping]

theorem mapping_or_not (v : Value) : (∃ fields, v = mapping fields) ∨ v.isMapping = false := by
  cases v <;> simp [isMapping]

/-- What holds of a mapping if it holds of all that stands under its keys, and holds of all other
values, holds of every value. -/
theorem induction_on_fields {P : Value → Prop} (other : ∀ v, v.isMapping = false → P v)
    (fields : ∀ fs : Fields, (∀ key v, fs.get? key = some v → P v) → P (mapping fs)) : ∀ v, P v
  | mapping fs => fields fs fun _ v h =>
    have := FieldsAfter.sizeOf_lt_of_get? h
    induction_on_fields other fields v
  | null | bool _ | number _ | string _ | sequence _ => other _ rfl
termination_by v => sizeOf v

end Value
end DocTemplate
