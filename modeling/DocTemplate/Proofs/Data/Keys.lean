import DocTemplate.Proofs.Data.Fields
import DocTemplate.Proofs.Rendering.ElementName
import DocTemplate.Proofs.Template.Origin
import DocTemplate.Proofs.Text.Names

/-! The known paths of a value are the chains of keys in it. A chain goes from mapping to mapping by
a key, and through a sequence by any of its elements. It is written with dots between the keys,
after those at its beginning that are empty. A chain through mappings alone is also a path to look
up, if its keys can be told apart in writing. -/

namespace DocTemplate

namespace Value

open FieldsAfter

/-! ### Chains of keys -/

/-- The keys lead from one value to another: each is a key of the mapping that those before it lead
to. If `entering` holds, a sequence on the way is entered at any of its elements. -/
inductive Leads (entering : Prop) : Value → List String → Value → Prop where
  | here (v : Value) : Leads entering v [] v
  | element {items : List Value} {u w : Value} {keys : List String} (hEnter : entering)
      (hMem : u ∈ items) (rest : Leads entering u keys w) : Leads entering (sequence items) keys w
  | field {fields : Fields} {key : String} {u w : Value} {keys : List String}
      (hField : fields.get? key = some u) (rest : Leads entering u keys w) :
      Leads entering (mapping fields) (key :: keys) w

theorem mem_pathsOfFields {p path : String} {before : Option String}
    {fields : FieldsAfter Value before} :
    p ∈ pathsOfFields path fields ↔ ∃ key u, fields.get? key = some u ∧
      (p = extend path key ∨ p ∈ u.pathsBelow (extend path key)) := by
  induction fields with
  | nil => simp [pathsOfFields, get?]
  | cons other _ v rest ih =>
    rw [pathsOfFields, List.mem_append, List.mem_cons, ih]
    constructor
    · rintro (hHere | ⟨key, u, hField, hPath⟩)
      · exact ⟨other, v, if_pos rfl, hHere⟩
      · -- A later key is not the first one, so it is found behind it.
        have hLater : other ≠ key := ne_of_lt (follows_some.mp (follows_of_get? hField))
        exact ⟨key, u, (if_neg hLater).trans hField, hPath⟩
    · rintro ⟨key, u, hField, hPath⟩
      rw [get?] at hField
      split at hField
      · next hKey =>
        subst hKey
        exact .inl (Option.some.inj hField ▸ hPath)
      · exact .inr ⟨key, u, hField, hPath⟩

theorem mem_pathsOfItems {p path : String} {items : List Value} :
    p ∈ pathsOfItems path items ↔ ∃ u ∈ items, p ∈ u.pathsBelow path := by
  induction items with
  | nil => simp [pathsOfItems]
  | cons v vs ih => rw [pathsOfItems, List.mem_append, ih, List.exists_mem_cons_iff]

/-- Every path below a value extends the path of the value by a chain of keys. -/
theorem leads_of_mem_pathsBelow {p : String} : ∀ (v : Value) {path : String},
    p ∈ v.pathsBelow path →
      ∃ keys w, keys ≠ [] ∧ Leads True v keys w ∧ p = keys.foldl extend path
  | mapping fields, path, h => by
    rw [pathsBelow] at h
    obtain ⟨key, u, hField, rfl | hBelow⟩ := mem_pathsOfFields.mp h
    · exact ⟨[key], u, by simp, .field hField (.here u), rfl⟩
    · have hSize := sizeOf_lt_of_get? hField
      obtain ⟨keys, w, -, hLeads, hp⟩ := leads_of_mem_pathsBelow u hBelow
      exact ⟨key :: keys, w, by simp, .field hField hLeads, hp⟩
  | sequence items, path, h => by
    rw [pathsBelow] at h
    obtain ⟨u, hMem, hBelow⟩ := mem_pathsOfItems.mp h
    have hSize := List.sizeOf_lt_of_mem hMem
    obtain ⟨keys, w, hne, hLeads, hp⟩ := leads_of_mem_pathsBelow u hBelow
    exact ⟨keys, w, hne, .element trivial hMem hLeads, hp⟩
  | null, _, h | bool _, _, h | number _, _, h | string _, _, h => by
    rw [pathsBelow] at h
    contradiction
termination_by v => sizeOf v

/-- Every chain of keys extends the path of a value to a path below it. -/
theorem Leads.mem_pathsBelow {entering : Prop} {v w : Value} {keys : List String}
    (h : Leads entering v keys w) (hne : keys ≠ []) (path : String) :
    keys.foldl extend path ∈ v.pathsBelow path := by
  induction h generalizing path with
  | here => contradiction
  | element _ hMem _ ih =>
    rw [pathsBelow]
    exact mem_pathsOfItems.mpr ⟨_, hMem, ih hne path⟩
  | @field fields key u w keys hField rest ih =>
    rw [pathsBelow]
    refine mem_pathsOfFields.mpr ⟨key, u, hField, ?_⟩
    cases keys with
    | nil => exact .inl rfl
    | cons next keys => exact .inr (ih (by simp) (extend path key))

/-! ### Chains in writing -/

/-- The keys of a chain with dots between them. As long as nothing is written, an empty key leaves
it so and no dot follows it. -/
def joined (keys : List String) : String := ".".intercalate (keys.dropWhile String.isEmpty)

theorem foldl_extend {path : String} (h : path ≠ "") (keys : List String) :
    keys.foldl extend path = ".".intercalate (path :: keys) := by
  induction keys generalizing path with
  | nil => rw [List.foldl_nil, String.intercalate_singleton]
  | cons key keys ih =>
    have hExtend : extend path key = path ++ "." ++ key := if_neg (by simpa using h)
    have hLonger : path ++ "." ++ key ≠ "" := by simp [h]
    rw [List.foldl_cons, hExtend, ih hLonger, String.intercalate_cons_append,
      String.intercalate_cons_cons]

theorem foldl_extend_empty (keys : List String) : keys.foldl extend "" = joined keys := by
  induction keys with
  | nil => rfl
  | cons key keys ih =>
    have hExtend : extend "" key = key := rfl
    rw [List.foldl_cons, hExtend, joined]
    by_cases hKey : key = ""
    · rw [hKey, ih, List.dropWhile_cons_of_pos rfl, joined]
    · rw [foldl_extend hKey, List.dropWhile_cons_of_neg (by simpa using hKey)]

/-- A path is known if and only if it is a chain of keys in writing. -/
theorem mem_knownPaths {v : Value} {p : String} :
    p ∈ v.knownPaths ↔ ∃ keys w, keys ≠ [] ∧ Leads True v keys w ∧ p = joined keys := by
  rw [knownPaths, Names.mem_ofList]
  constructor
  · intro h
    obtain ⟨keys, w, hne, hLeads, hp⟩ := leads_of_mem_pathsBelow v h
    exact ⟨keys, w, hne, hLeads, hp.trans (foldl_extend_empty keys)⟩
  · rintro ⟨keys, w, hne, hLeads, rfl⟩
    rw [← foldl_extend_empty]
    exact hLeads.mem_pathsBelow hne ""

/-! ### Chains to look up -/

/-- A key that can be told from its neighbours in a path. -/
def IsSegment (key : String) : Prop := key ≠ "" ∧ '.' ∉ key.toList

instance (key : String) : Decidable (IsSegment key) :=
  inferInstanceAs (Decidable (key ≠ "" ∧ '.' ∉ key.toList))

theorem joined_of_isSegment {keys : List String} (h : ∀ key ∈ keys, IsSegment key) :
    joined keys = ".".intercalate keys := by
  rw [joined, List.dropWhile_eq_self_iff.mpr]
  intro hLength
  simpa using (h _ (List.getElem_mem hLength)).1

/-- A written chain is read as its keys. -/
theorem segments_parse_joined {keys : List String} (hne : keys ≠ [])
    (h : ∀ key ∈ keys, IsSegment key) : (Path.parse (joined keys)).segments = keys := by
  have hParts : Text.splitOn '.' (joined keys).toList = keys.map String.toList := by
    rw [joined_of_isSegment h, String.toList_intercalate, Text.splitOn_eq]
    refine List.splitOn_intercalate '.' ?_ (by simpa using hne)
    exact List.forall_mem_map.mpr fun key hKey => (h key hKey).2
  have hNoEmpty : [] ∉ Text.splitOn '.' (joined keys).toList := by
    rw [hParts, List.mem_map]
    rintro ⟨key, hKey, hNil⟩
    exact (h key hKey).1 (String.toList_eq_nil_iff.mp hNil)
  rcases Path.parse_cases (joined keys) with ⟨cs, hDot, -⟩ | ⟨-, hParse⟩
  · -- A dot at the beginning would have an empty part before it.
    rw [hDot, Text.splitOn, if_pos rfl] at hNoEmpty
    exact absurd List.mem_cons_self hNoEmpty
  · have hText : (joined keys).toList ≠ [] := by
      intro hNil
      rw [hNil] at hNoEmpty
      exact hNoEmpty List.mem_cons_self
    rw [hParse, Path.segmentsOf_of_ne_nil hText, hParts, List.map_map]
    simp [Function.comp_def]

theorem Leads.resolve? {v w : Value} {keys : List String} (h : Leads False v keys w) :
    v.resolve? keys = some w := by
  induction h with
  | here => rfl
  | element hEnter => exact hEnter.elim
  | field hField rest ih => rw [resolve?_cons, member?, hField, Option.bind_some, ih]

/-- The known paths of a value are in the order of their bytes, each once, and they are the chains
of one or more keys in writing. If a chain enters no sequence and each of its keys is a segment, the
value has at that path what the chain leads to. -/
theorem knownPaths_exact (v : Value) :
    v.knownPaths.Pairwise (fun p q => Text.bytes p < Text.bytes q) ∧
      (∀ p, p ∈ v.knownPaths ↔
        ∃ keys w, keys ≠ [] ∧ Leads True v keys w ∧ p = joined keys) ∧
      (∀ keys w, keys ≠ [] → Leads False v keys w → (∀ key ∈ keys, IsSegment key) →
        joined keys ∈ v.knownPaths ∧
          v.resolve? (Path.parse (joined keys)).segments = some w) := by
  refine ⟨?_, fun p => mem_knownPaths, fun keys w hne hLeads hKeys => ⟨?_, ?_⟩⟩
  · exact (Names.pairwise_ofList _).imp Text.bytes_lt_iff.mpr
  · rw [knownPaths, Names.mem_ofList, ← foldl_extend_empty]
    exact hLeads.mem_pathsBelow hne ""
  · rw [segments_parse_joined hne hKeys]
    exact hLeads.resolve?

theorem knownPaths_exact_order :
    let items := sequence [sequence [mapping (.ofList [("sku", string "A1")])],
      mapping (.ofList [("qty", null)])]
    let v := mapping (.ofList [("", mapping (.ofList [("a", null)])),
      ("order", mapping (.ofList [("items", items)]))])
    "a" ∈ v.knownPaths ∧ "order.items.sku" ∈ v.knownPaths ∧
      v.resolve? (Path.parse "order.items").segments = some items := by
  intro items v
  have hItem : Leads True items ["sku"] (string "A1") :=
    .element trivial List.mem_cons_self (.element trivial List.mem_cons_self (.field rfl (.here _)))
  have hDirect : Leads False v ["order", "items"] items := .field rfl (.field rfl (.here _))
  refine ⟨?_, ?_, ?_⟩
  · refine ((knownPaths_exact v).2.1 "a").mpr ⟨["", "a"], null, by simp, ?_, rfl⟩
    exact .field rfl (.field rfl (.here _))
  · refine ((knownPaths_exact v).2.1 "order.items.sku").mpr
      ⟨["order", "items", "sku"], string "A1", by simp, ?_, rfl⟩
    exact .field rfl (.field rfl hItem)
  · exact ((knownPaths_exact v).2.2 ["order", "items"] items (by simp) hDirect (by decide)).2

-- Paths of different elements are listed together.
example : (mapping (.ofList [("xs", sequence [mapping (.ofList [("b", null)]),
    mapping (.ofList [("a", null), ("b", null)])])])).knownPaths = ["xs", "xs.a", "xs.b"] := by
  decide

end Value
end DocTemplate
