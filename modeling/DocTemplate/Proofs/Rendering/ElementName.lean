import DocTemplate.Data.Keys
import DocTemplate.Proofs.Rendering.Fallback

/-! The words for the element of a loop. What the element has at a path is also found under `item`
and under the last part of the section's name, each followed by the path, and under no other words.
So the section's own name addresses the element if it has one part. A name of several parts does
not, although the known paths of the data begin with it. -/

namespace DocTemplate

theorem Text.splitOn_append (separator : Char) (as bs : List Char) :
    splitOn separator (as ++ separator :: bs) = splitOn separator as ++ splitOn separator bs := by
  induction as with
  | nil => simp [splitOn]
  | cons c as ih =>
    obtain ⟨part, parts, hParts⟩ := List.exists_cons_of_ne_nil (splitOn_ne_nil separator as)
    rw [hParts, List.cons_append] at ih
    rw [List.cons_append, splitOn, splitOn, ih, hParts]
    by_cases h : c = separator
    · rw [if_pos h, if_pos h]
      rfl
    · rw [if_neg h, if_neg h]
      rfl

namespace Path

/-! ### The parts of a name -/

theorem segmentsOf_of_ne_nil {cs : List Char} (h : cs ≠ []) :
    segmentsOf cs = (Text.splitOn '.' cs).map String.ofList := by
  cases cs with
  | nil => contradiction
  | cons c cs => rfl

/-- Only a name that begins with a dot is anchored. -/
theorem parse_cases (name : String) :
    (∃ cs, name.toList = '.' :: cs ∧ parse name = ⟨segmentsOf cs, true⟩) ∨
      (name.toList.head? ≠ some '.' ∧ parse name = ⟨segmentsOf name.toList, false⟩) := by
  rw [parse]
  split
  · next cs hDot => exact .inl ⟨cs, hDot, rfl⟩
  · next hNoDot =>
    refine .inr ⟨fun hHead => ?_, rfl⟩
    obtain ⟨cs, hText⟩ := List.head?_eq_some_iff.mp hHead
    exact hNoDot cs hText

theorem parse_of_head {name : String} (h : name.toList.head? ≠ some '.') :
    parse name = ⟨segmentsOf name.toList, false⟩ := by
  rcases parse_cases name with ⟨cs, hDot, -⟩ | ⟨-, hParse⟩
  · rw [hDot] at h
    exact absurd rfl h
  · exact hParse

/-- More parts are written after a dot. -/
theorem parse_append_dot {name rest : String} (hName : name ≠ "")
    (hRelative : (parse name).anchored = false) (hRest : rest ≠ "") :
    parse (name ++ "." ++ rest) =
      ofSegments ((parse name).segments ++ segmentsOf rest.toList) := by
  have hChars : (name ++ "." ++ rest).toList = name.toList ++ '.' :: rest.toList := by simp
  have hName' : name.toList ≠ [] := by simpa using hName
  have hRest' : rest.toList ≠ [] := by simpa using hRest
  rcases parse_cases name with ⟨cs, -, hAnchored⟩ | ⟨hHead, hParse⟩
  · rw [hAnchored] at hRelative
    contradiction
  · have hHead' : (name ++ "." ++ rest).toList.head? ≠ some '.' := by
      rwa [hChars, List.head?_append_of_ne_nil _ hName']
    rw [parse_of_head hHead', hParse, hChars, segmentsOf_of_ne_nil (by simp),
      segmentsOf_of_ne_nil hName', segmentsOf_of_ne_nil hRest', Text.splitOn_append,
      List.map_append]
    rfl

end Path

namespace Scope

/-- A name ends with its last part. -/
theorem getLast?_segments_parse {name : String} (h : (Path.parse name).segments ≠ []) :
    (Path.parse name).segments.getLast? = some (lastPart name) := by
  -- The parts of an anchored name are its segments with an empty part before them.
  have hParts : ∃ before, (Text.splitOn '.' name.toList).map String.ofList =
      before ++ (Path.parse name).segments := by
    rcases Path.parse_cases name with ⟨cs, hDot, hParse⟩ | ⟨-, hParse⟩
    · rw [hParse] at h ⊢
      have hRest : cs ≠ [] := mt Path.segmentsOf_eq_nil_iff.mpr h
      refine ⟨[""], ?_⟩
      rw [hDot, Path.segmentsOf_of_ne_nil hRest]
      rfl
    · rw [hParse] at h ⊢
      have hName : name.toList ≠ [] := mt Path.segmentsOf_eq_nil_iff.mpr h
      exact ⟨[], (Path.segmentsOf_of_ne_nil hName).symm⟩
  obtain ⟨before, hParts⟩ := hParts
  have hLast := congrArg List.getLast? hParts
  rw [List.getLast?_append_of_ne_nil _ h, List.getLast?_map,
    List.getLast?_eq_some_getLast (Text.splitOn_ne_nil '.' name.toList)] at hLast
  rw [← hLast, lastPart, List.getLastD_eq_getLast?,
    List.getLast?_eq_some_getLast (Text.splitOn_ne_nil '.' name.toList)]
  rfl

/-! ### Words for the element -/

/-- In a loop over `sect`, what the element has at a path is found under the words followed by that
path, unless the element itself has something under these. -/
def Addresses (sect : String) (words : List String) : Prop :=
  ∀ (s : Scope) (index : Nat) (element v : Value) (rest : List String), rest ≠ [] →
    element.resolve? rest = some v →
      let found := (s.push ⟨element, .iteration sect index⟩).lookup?
        (Path.ofSegments (words ++ rest))
      found.isSome ∧ (element.resolve? (words ++ rest) = none → found = some v)

theorem addresses_nil (sect : String) : Addresses sect [] := by
  intro s index element v rest _ hFound found
  have hField : (⟨element, .iteration sect index⟩ : Frame).lookup?
      (Path.ofSegments ([] ++ rest)) = some v := Frame.lookup?_of_field hFound
  have hLookup : found = some v := by
    rw [show found = _ from lookup?_push s _ rfl, hField, Option.some_or]
  exact ⟨Option.isSome_of_eq_some hLookup, fun _ => hLookup⟩

theorem addresses_word {sect word : String} (h : word = itemWord ∨ word = lastPart sect) :
    Addresses sect [word] := by
  intro s index element v rest hRest hFound found
  have hGives : (⟨element, .iteration sect index⟩ : Frame).Gives
      (Path.ofSegments ([word] ++ rest)) v := .member h hRest rfl hFound
  have hLookup : found = _ := lookup?_push s _ rfl
  refine ⟨?_, fun hNoField => ?_⟩
  · rw [hLookup, Option.isSome_or, hGives.isSome, Bool.true_or]
  · rw [hLookup, Frame.lookup?_iteration hNoField, iterationValue?_member h hRest rfl hFound,
      Option.some_or]

/-- A list of one null has its element and nothing below it. -/
theorem resolve?_sequence_null (segment : String) {rest : List String} (h : rest ≠ []) :
    (Value.sequence [.null]).resolve? (segment :: rest) = none := by
  obtain ⟨next, rest, rfl⟩ := List.exists_cons_of_ne_nil h
  rw [Value.resolve?_cons, Value.member?]
  cases index? segment with
  | none => rfl
  | some i => cases i <;> rfl

/-- A list of one null shows that other words do not address the element. -/
theorem Addresses.eq_word {sect : String} {words : List String} (h : Addresses sect words) :
    words = [] ∨ words = [itemWord] ∨ words = [lastPart sect] := by
  cases words with
  | nil => exact .inl rfl
  | cons word words =>
    right
    obtain ⟨hSome, -⟩ := h (ofRoot .null) 0 (.sequence [.null]) .null ["0"] (by simp) rfl
    have hMore : words ++ ["0"] ≠ [] := by simp
    have hRoot : (ofRoot .null).lookup? (Path.ofSegments (word :: (words ++ ["0"]))) = none := rfl
    rw [lookup?_push _ _ rfl, List.cons_append, hRoot, Option.or_none] at hSome
    obtain ⟨v, hFrame⟩ := Option.isSome_iff_exists.mp hSome
    cases Frame.gives_of_lookup? hFrame with
    | field found =>
      rw [show (Path.ofSegments _).segments = word :: (words ++ ["0"]) from rfl,
        resolve?_sequence_null word hMore] at found
      contradiction
    | index only => exact absurd (List.cons.inj only).2 hMore
    | item only => exact absurd (List.cons.inj only).2 hMore
    | member name more segments found =>
      obtain ⟨rfl, rfl⟩ := List.cons.inj segments
      cases words with
      | nil => simpa using name
      | cons next words =>
        rw [List.cons_append, resolve?_sequence_null next (by simp)] at found
        contradiction

theorem addresses_iff {sect : String} {words : List String} :
    Addresses sect words ↔ words = [] ∨ words = [itemWord] ∨ words = [lastPart sect] := by
  refine ⟨Addresses.eq_word, ?_⟩
  rintro (rfl | rfl | rfl)
  · exact addresses_nil sect
  · exact addresses_word (.inl rfl)
  · exact addresses_word (.inr rfl)

/-- The element of a loop goes by the last part of the section's name. It goes by the whole name
exactly when that has no more parts. -/
theorem addresses_name_iff (sect : String) :
    (∀ rest : String, sect ≠ "" → (Path.parse sect).anchored = false → rest ≠ "" →
      Path.parse (sect ++ "." ++ rest) =
        Path.ofSegments ((Path.parse sect).segments ++ Path.segmentsOf rest.toList)) ∧
    Addresses sect [lastPart sect] ∧
    (Addresses sect (Path.parse sect).segments ↔ (Path.parse sect).segments.length ≤ 1) := by
  refine ⟨fun rest => Path.parse_append_dot, addresses_word (.inr rfl), fun h => ?_,
    fun hShort => ?_⟩
  · rcases h.eq_word with hWords | hWords | hWords <;> simp [hWords]
  · rw [addresses_iff]
    by_cases hEmpty : (Path.parse sect).segments = []
    · exact .inl hEmpty
    · obtain ⟨word, hWord⟩ := List.length_eq_one_iff.mp
        (Nat.le_antisymm hShort (List.length_pos_iff.mpr hEmpty))
      have hLast := getLast?_segments_parse hEmpty
      rw [hWord] at hLast ⊢
      rw [← Option.some.inj hLast]
      exact .inr (.inr rfl)

/-- The second pass of a loop over `rows`, whose elements have lists in them. -/
theorem addresses_name_iff_rows :
    let element := Value.mapping (.ofList [("cells", .sequence [.null, .string "é"])])
    let s := (Scope.ofRoot .empty).push ⟨element, .iteration "rows" 1⟩
    (Path.parse "rows").segments.length ≤ 1 ∧ element.resolve? ["cells", "1"] = some (.string "é") ∧
      s.lookup? (Path.parse ("rows" ++ "." ++ "cells.1")) = some (.string "é") := by
  intro element s
  obtain ⟨hText, -, hName⟩ := addresses_name_iff "rows"
  have hWhole := hText "cells.1" (by decide) rfl (by decide)
  rw [hWhole]
  exact ⟨by decide, rfl, (hName.mpr (by decide) (.ofRoot .empty) 1 element _ ["cells", "1"]
    (by decide) rfl).2 rfl⟩

/-- The items of an order: in the loop over them a variable at their known path is missing. -/
theorem not_addresses_dotted_name :
    let element := Value.mapping (.ofList [("sku", .string "A1")])
    let order := Value.mapping (.ofList [("items", .sequence [element])])
    let root := Value.mapping (.ofList [("order", order)])
    let s := (Scope.ofRoot root).push ⟨element, .iteration "order.items" 0⟩
    let raw := "\x7b#order.items\x7d\x7border.items.sku\x7d\x7b#end\x7d"
    "order.items.sku" ∈ root.knownPaths ∧ element.resolve? ["sku"] = some (.string "A1") ∧
      element.resolve? (Path.parse "order.items.sku").segments = none ∧
      s.lookup? (Path.parse "items.sku") = some (.string "A1") ∧
      s.lookup? (Path.parse "order.items.sku") = none ∧
      ¬Addresses "order.items" (Path.parse "order.items").segments ∧
      (Template.compile raw).render root = ⟨"", [.missingVariable "order.items.sku" 14]⟩ := by
  intro element order root s raw
  have hScan : Token.scan raw =
      [⟨.opening "order.items", 0, 14⟩, ⟨.var "order.items.sku", 14, 17⟩,
        ⟨.closing none, 31, 6⟩] :=
    Token.scan_eq (by decide) (by decide)
  refine ⟨by decide, rfl, rfl, rfl, rfl, fun h => ?_, ?_⟩
  · obtain ⟨hFound, -⟩ := h (.ofRoot root) 0 element (.string "A1") ["sku"] (by decide) rfl
    contradiction
  · rw [Template.render, Template.compile, hScan]
    rfl

end Scope
end DocTemplate
