import DocTemplate.Data.Value

/-! Layers of data: later ones override earlier ones, mapping by mapping. -/

namespace DocTemplate

mutual

/-- The fields of `overrides` set in `base`, each merged with what is there. -/
def Fields.merge (base : Fields) {before : Option String} : FieldsAfter Value before → Fields
  | .nil => base
  | .cons key _ v overrides =>
    let merged := match base.get? key with
      | some below => below.merge v
      | none => v
    Fields.merge (base.put key merged) overrides

/-- The value `overrides` over `base`. Two mappings are merged, and anything else replaces what was
there. -/
def Value.merge (base : Value) : Value → Value
  | .mapping overrides =>
    match base with
    | .mapping fields => .mapping (Fields.merge fields overrides)
    | _ => .mapping overrides
  | .null => .null
  | .bool b => .bool b
  | .number n => .number n
  | .string s => .string s
  | .sequence items => .sequence items

end

/-- Several layers of data as one, the first layer lowest; no layers are an empty mapping. -/
def Value.layers (values : List Value) : Value := values.foldl Value.merge .empty

end DocTemplate
