import DocTemplate.Files.DataFile
import DocTemplate.Proofs.Data.Merge

/-! Layers of data. A layer over itself, or a second time over what it is over already, changes
nothing, so the last of several data files can be named again. Which two of three layers are merged
first does not matter, unless the middle one has a value at a path that keeps two mappings of the
others apart. -/

namespace DocTemplate

open FieldsAfter Value

namespace Value

variable {a b c : Value}

/-! ### A layer over itself -/

theorem merge_self (v : Value) : v.merge v = v := by
  induction v using induction_on_fields with
  | other v hOther => exact merge_of_not_mapping v hOther
  | fields fields ih =>
    rw [merge_mapping]
    refine congrArg mapping (FieldsAfter.ext fun key => ?_)
    rw [Fields.get?_merge]
    cases hv : fields.get? key with
    | none => rfl
    | some v => rw [Option.merge_some_some, ih key v hv]

theorem empty_merge (v : Value) : empty.merge v = v := by
  rcases v.mapping_or_not with ⟨fields, rfl⟩ | hOther
  · rw [empty, merge_mapping]
    refine congrArg mapping (FieldsAfter.ext fun key => ?_)
    rw [Fields.get?_merge, get?, Option.merge_none_left]
  · exact merge_of_not_mapping empty hOther

/-! ### Three layers -/

/-- At some path of keys the middle one of three layers has a value that is no mapping, and the
other two have mappings. -/
def Splits (a b c : Value) : Prop :=
  ∃ path lower v upper, a.atKeys? path = some (mapping lower) ∧ b.atKeys? path = some v ∧
    v.isMapping = false ∧ c.atKeys? path = some (mapping upper)

theorem splits_of_not_mapping (h : b.isMapping = false) (lower upper : Fields) :
    Splits (mapping lower) b (mapping upper) :=
  ⟨[], lower, b, upper, rfl, rfl, h, rfl⟩

theorem splits_mapping_iff {middle : Fields} :
    Splits a (mapping middle) c ↔ ∃ key u v w, a.field? key = some u ∧ middle.get? key = some v ∧
      c.field? key = some w ∧ Splits u v w := by
  constructor
  · rintro ⟨path, lower, v, upper, ha, hb, hv, hc⟩
    cases path with
    | nil => simp [← Option.some.inj hb, isMapping] at hv
    | cons key keys =>
      obtain ⟨u, hu, ha⟩ := Option.bind_eq_some_iff.mp ha
      obtain ⟨v', hv', hb⟩ := Option.bind_eq_some_iff.mp hb
      obtain ⟨w, hw, hc⟩ := Option.bind_eq_some_iff.mp hc
      exact ⟨key, u, v', w, hu, hv', hw, keys, lower, v, upper, ha, hb, hv, hc⟩
  · rintro ⟨key, u, v, w, hu, hv, hw, keys, lower, v', upper, ha, hb, hOther, hc⟩
    refine ⟨key :: keys, lower, v', upper, ?_, ?_, hOther, ?_⟩
    · rw [atKeys?_cons, hu, Option.bind_some, ha]
    · rw [atKeys?_cons, field?, hv, Option.bind_some, hb]
    · rw [atKeys?_cons, hw, Option.bind_some, hc]

/-- Which two are merged first can only matter for three layers of which the outer ones are
mappings. -/
theorem merge_assoc_of_mappings
    (h : ∀ lower upper, a = mapping lower → c = mapping upper →
      (a.merge b).merge c = a.merge (b.merge c)) :
    (a.merge b).merge c = a.merge (b.merge c) := by
  rcases c.mapping_or_not with ⟨upper, hc⟩ | hc
  · rcases a.mapping_or_not with ⟨lower, ha⟩ | ha
    · exact h lower upper ha hc
    · rw [not_mapping_merge ha, not_mapping_merge ha]
  · rw [merge_of_not_mapping (a.merge b) hc, merge_of_not_mapping b hc, merge_of_not_mapping a hc]

theorem merge_assoc (h : ¬ Splits a b c) : (a.merge b).merge c = a.merge (b.merge c) := by
  induction b using induction_on_fields generalizing a c with
  | other b hOther =>
    refine merge_assoc_of_mappings fun lower upper haFields hcFields => ?_
    subst haFields hcFields
    -- The middle layer splits the other two at the empty path.
    exact absurd (splits_of_not_mapping hOther lower upper) h
  | fields middle ih =>
    refine merge_assoc_of_mappings fun lower upper haFields hcFields => ?_
    subst haFields hcFields
    rw [merge_mapping, merge_mapping, merge_mapping, merge_mapping]
    refine congrArg mapping (FieldsAfter.ext fun key => ?_)
    rw [Fields.get?_merge, Fields.get?_merge, Fields.get?_merge, Fields.get?_merge]
    -- Only a key that all three have leads further down.
    cases hu : lower.get? key with
    | none => rw [Option.merge_none_left, Option.merge_none_left]
    | some u =>
      cases hv : middle.get? key with
      | none => rw [Option.merge_none_right, Option.merge_none_left]
      | some v =>
        cases hw : upper.get? key with
        | none => rw [Option.merge_none_right, Option.merge_none_right]
        | some w =>
          have hBelow : ¬ Splits u v w := fun hSplits =>
            h (splits_mapping_iff.mpr ⟨key, u, v, w, hu, hv, hw, hSplits⟩)
          exact congrArg some (ih key v hv hBelow)

example :
    let a := mapping (.ofList [("x", mapping (.ofList [("y", bool true)]))])
    let b := mapping (.ofList [("x", null)])
    let c := mapping (.ofList [("x", empty)])
    ((a.merge b).merge c).atKeys? ["x", "y"] = none ∧
      (a.merge (b.merge c)).atKeys? ["x", "y"] = some (bool true) := ⟨rfl, rfl⟩

theorem not_splits_self (a b : Value) : ¬ Splits a b b := by
  rintro ⟨path, lower, v, upper, -, hv, hOther, hUpper⟩
  rw [hv] at hUpper
  rw [Option.some.inj hUpper] at hOther
  contradiction

theorem merge_merge_self (a b : Value) : (a.merge b).merge b = a.merge b := by
  rw [merge_assoc (not_splits_self a b), merge_self]

/-! ### Lists of layers -/

theorem layers_concat (values : List Value) (v : Value) :
    layers (values ++ [v]) = (layers values).merge v := by
  rw [layers, List.foldl_append, List.foldl_cons, List.foldl_nil, layers]

theorem layers_repeat (values : List Value) (v : Value) :
    layers (values ++ [v, v]) = layers (values ++ [v]) := by
  rw [List.append_cons, layers_concat, layers_concat, merge_merge_self]

end Value

namespace DataFile

theorem loadLayers_concat (fs : FileSystem) (paths : List FilePath) (p : FilePath) :
    loadLayers fs (paths ++ [p]) = do
      let below ← loadLayers fs paths
      let v ← load fs p
      return below.merge v := by
  simp [loadLayers, List.mapM_append, Value.layers_concat]

theorem loadLayers_repeat (fs : FileSystem) (paths : List FilePath) (p : FilePath) :
    loadLayers fs (paths ++ [p, p]) = loadLayers fs (paths ++ [p]) := by
  rw [List.append_cons, loadLayers_concat fs (paths ++ [p]), loadLayers_concat]
  cases hBelow : loadLayers fs paths with
  | error e => rfl
  | ok below =>
    cases hv : load fs p with
    | error e => rfl
    | ok v => exact congrArg Except.ok (Value.merge_merge_self below v)

end DataFile

/-- The laws of layers. A layer over itself is itself, and the second time over others it changes
nothing; one layer alone is what it holds; three layers are the same whichever two are merged first,
unless the middle one splits the others; and the last layer of a list, or the last data file, can be
named again. -/
theorem Value.layering (a b c : Value) :
    a.merge a = a ∧
    (a.merge b).merge b = a.merge b ∧
    layers [a] = a ∧
    (¬ Splits a b c → (a.merge b).merge c = a.merge (b.merge c)) ∧
    (∀ values, layers (values ++ [a, a]) = layers (values ++ [a])) ∧
    ∀ fs paths p,
      DataFile.loadLayers fs (paths ++ [p, p]) = DataFile.loadLayers fs (paths ++ [p]) :=
  ⟨merge_self a, merge_merge_self a b, empty_merge a, merge_assoc,
    fun values => layers_repeat values a, DataFile.loadLayers_repeat⟩

theorem Value.layering_three_layers :
    let a := mapping (.ofList [("k", null),
      ("x", mapping (.ofList [("y", number (.int 1)), ("z", string "é")]))])
    let b := mapping (.ofList [("k", bool true), ("x", mapping (.ofList [("y", empty)]))])
    let c := mapping (.ofList [("x", mapping (.ofList [("y", mapping (.ofList [("w", null)]))]))])
    ¬ Splits a b c ∧ (a.merge b).merge c = a.merge (b.merge c) ∧
      layers [c, a, a] = layers [c, a] := by
  intro a b c
  have hSplits : ¬ Splits a b c := by
    simp [a, b, c, empty, splits_mapping_iff, field?, ofList, get?_put, get?]
  obtain ⟨-, -, -, hAssoc, hRepeat, -⟩ := Value.layering a b c
  exact ⟨hSplits, hAssoc hSplits, hRepeat [c]⟩

end DocTemplate
