import DocTemplate.Text.Names
import Mathlib.Data.String.Basic

/-! The order of texts. A set of texts is kept in the order of code points, and that is the order of
the bytes that the texts have in UTF-8: of two characters the greater one has the greater byte where
their bytes first differ. -/

namespace DocTemplate

namespace Text

/-- The bytes of a text in UTF-8. -/
def bytes (s : String) : List UInt8 := s.toUTF8.data.toList

theorem bytes_eq (s : String) : bytes s = s.toList.flatMap String.utf8EncodeChar := by
  rw [bytes, String.toUTF8_eq_toByteArray, ← String.utf8Encode_toList, List.utf8Encode,
    List.toList_data_toByteArray]

theorem encodeChar_append_lt {c d : Char} (h : c < d) (as bs : List UInt8) :
    String.utf8EncodeChar c ++ as < String.utf8EncodeChar d ++ bs := by
  have hLess : c.val.toNat < d.val.toNat := h
  have hValid : d.val.toNat < 0x110000 := by
    have hRange := d.valid
    unfold UInt32.isValidChar Nat.isValidChar at hRange
    omega
  simp only [String.utf8EncodeChar]
  -- One case for each pair of lengths. The bytes are remainders far from overflow.
  split_ifs <;>
    simp (disch := omega) only [List.cons_append, List.nil_append, List.cons_lt_cons_iff,
      UInt8.lt_iff_toNat_lt, ← UInt8.toNat_inj, UInt8.toNat_ofNat', Nat.mod_eq_of_lt] <;>
    omega

theorem flatMap_encodeChar_lt {cs ds : List Char} (h : cs < ds) :
    cs.flatMap String.utf8EncodeChar < ds.flatMap String.utf8EncodeChar := by
  induction cs generalizing ds with
  | nil =>
    cases ds with
    | nil => exact absurd h (List.not_lt_nil _)
    | cons d ds =>
      have hBytes : String.utf8EncodeChar d ≠ [] := by
        rw [← List.length_pos_iff, String.length_utf8EncodeChar]
        exact d.utf8Size_pos
      obtain ⟨byte, bytes, hSome⟩ := List.exists_cons_of_ne_nil hBytes
      rw [List.flatMap_nil, List.flatMap_cons, hSome]
      exact List.nil_lt_cons _ _
  | cons c cs ih =>
    cases ds with
    | nil => exact absurd h (List.not_lt_nil _)
    | cons d ds =>
      rw [List.flatMap_cons, List.flatMap_cons]
      rcases List.cons_lt_cons_iff.mp h with hLess | ⟨rfl, hRest⟩
      · exact encodeChar_append_lt hLess _ _
      · exact List.append_left_lt (ih hRest)

/-- Texts are ordered as their bytes are. -/
theorem bytes_lt_iff {s t : String} : bytes s < bytes t ↔ s < t := by
  have hMono : ∀ {s t : String}, s < t → bytes s < bytes t := fun h => by
    rw [bytes_eq, bytes_eq]
    exact flatMap_encodeChar_lt (String.lt_iff_toList_lt.mp h)
  refine ⟨fun h => ?_, hMono⟩
  rcases lt_trichotomy s t with hLess | rfl | hMore
  · exact hLess
  · exact absurd h (List.lt_irrefl _)
  · exact absurd h (List.lt_asymm (hMono hMore))

end Text

namespace Names

theorem pairwise_insert {names : Names} (h : names.Pairwise (· < ·)) (name : String) :
    (insert name names).Pairwise (· < ·) := by
  induction names with
  | nil => exact List.pairwise_singleton _ name
  | cons first names ih =>
    obtain ⟨hFirst, hRest⟩ := List.pairwise_cons.mp h
    rw [insert]
    split
    · exact h
    · next hOther =>
      split
      · next hBefore =>
        refine List.pairwise_cons.mpr ⟨List.forall_mem_cons.mpr ⟨hBefore, ?_⟩, h⟩
        exact fun other hMem => hBefore.trans (hFirst other hMem)
      · next hNotBefore =>
        have hAfter : first < name := lt_of_le_of_ne (not_lt.mp hNotBefore) (Ne.symm hOther)
        refine List.pairwise_cons.mpr ⟨fun other hMem => ?_, ih hRest⟩
        rcases mem_insert.mp hMem with rfl | hOld
        · exact hAfter
        · exact hFirst other hOld

theorem pairwise_ofList (names : List String) : (ofList names).Pairwise (· < ·) := by
  have hFold : ∀ set : Names, set.Pairwise (· < ·) →
      (names.foldl (fun set name => insert name set) set).Pairwise (· < ·) := by
    induction names with
    | nil => exact fun set h => h
    | cons name names ih => exact fun set h => ih _ (pairwise_insert h name)
  exact hFold [] .nil

theorem mem_ofList {names : List String} {name : String} : name ∈ ofList names ↔ name ∈ names := by
  have hFold : ∀ set : Names, name ∈ names.foldl (fun set name => insert name set) set ↔
      name ∈ names ∨ name ∈ set := by
    induction names with
    | nil => simp
    | cons first names ih =>
      intro set
      rw [List.foldl_cons, ih, mem_insert, List.mem_cons]
      tauto
  rw [ofList, hFold, or_iff_left List.not_mem_nil]

end Names
end DocTemplate
