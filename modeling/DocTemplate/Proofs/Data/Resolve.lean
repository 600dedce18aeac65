import DocTemplate.Data.Resolve
import Mathlib.Data.Nat.Digits.Defs
import Mathlib.Tactic.Ring

/-! Following a path. A path goes on from where its beginning ends. In a sequence a segment of
decimal digits is an index: it is read into 64 bits, a digit at a time, and the reading stops as
soon as a number has more. So what is read is the number that the digits denote, however many they
are, and never its remainder. -/

namespace DocTemplate

namespace Text

def digitValue (c : Char) : Nat := c.toNat - '0'.toNat

/-- The number that decimal digits denote, of any size. -/
def decimal (s : String) : Nat := Nat.ofDigits 10 (s.toList.map digitValue).reverse

theorem natOfDigits_eq_decimal (s : String) : natOfDigits s.toList = decimal s := by
  rw [decimal, Nat.ofDigits_eq_foldr, List.foldr_reverse, List.foldl_map, natOfDigits]
  congr
  funext n c
  rw [digitValue, Nat.cast_id]
  ring

theorem withDigit?_eq_some_iff {n m : UInt64} {c : Char} :
    withDigit? n c = some m ↔ m.toNat = n.toNat * 10 + digitValue c := by
  rw [withDigit?, digitValue]
  generalize c.toNat - '0'.toNat = digit
  have hWidth : Limits.unsigned64 = 2 ^ 64 := rfl
  split
  · next hFits =>
    have hWord : (n * 10 + digit.toUInt64).toNat = n.toNat * 10 + digit := by
      rw [UInt64.toNat_add, UInt64.toNat_mul, Nat.toUInt64_eq, UInt64.toNat_ofNat',
        Nat.mod_eq_of_lt (show digit < 2 ^ 64 by omega)]
      simp
      omega
    rw [Option.some.injEq, ← UInt64.toNat_inj, hWord, eq_comm]
  · next hLong =>
    have hBound := m.toNat_lt
    constructor
    · intro h
      contradiction
    · omega

theorem le_foldl_digits (digits : List Char) (n : Nat) :
    n ≤ digits.foldl (fun n c => n * 10 + digitValue c) n := by
  induction digits generalizing n with
  | nil => exact Nat.le_refl n
  | cons c digits ih => exact Nat.le_trans (by omega) (ih (n * 10 + digitValue c))

theorem foldlM_withDigit?_eq_some_iff {digits : List Char} {n m : UInt64} :
    digits.foldlM withDigit? n = some m ↔
      m.toNat = digits.foldl (fun n c => n * 10 + digitValue c) n.toNat := by
  induction digits generalizing n with
  | nil =>
    rw [List.foldlM_nil, List.foldl_nil, Option.pure_def, Option.some.injEq, ← UInt64.toNat_inj,
      eq_comm]
  | cons c digits ih =>
    rw [List.foldlM_cons, List.foldl_cons, Option.bind_eq_bind, Option.bind_eq_some_iff]
    constructor
    · rintro ⟨k, hDigit, hRest⟩
      rw [← withDigit?_eq_some_iff.mp hDigit]
      exact ih.mp hRest
    · intro h
      -- The number does not shrink, so it has at most 64 bits at each digit.
      have hFits : n.toNat * 10 + digitValue c < 2 ^ 64 :=
        (h ▸ le_foldl_digits digits _).trans_lt m.toNat_lt
      have hWord : (UInt64.ofNat (n.toNat * 10 + digitValue c)).toNat =
          n.toNat * 10 + digitValue c := UInt64.toNat_ofNat_of_lt' hFits
      exact ⟨_, withDigit?_eq_some_iff.mpr hWord, ih.mpr (hWord.symm ▸ h)⟩

theorem wordOfDigits?_eq_some_iff {s : String} {m : UInt64} :
    wordOfDigits? s.toList = some m ↔ m.toNat = decimal s := by
  rw [wordOfDigits?, foldlM_withDigit?_eq_some_iff, ← natOfDigits_eq_decimal]
  rfl

end Text

open Text

/-! ### Indices -/

/-- An index is a number of 64 bits, written in one or more digits. -/
theorem index?_eq_some_iff {s : String} {i : Nat} :
    index? s = some i ↔
      s ≠ "" ∧ (∀ c ∈ s.toList, c.isDigit) ∧ decimal s = i ∧ i < 2 ^ 64 := by
  have hDigits : (!s.toList.isEmpty && s.toList.all Char.isDigit) = true ↔
      s ≠ "" ∧ ∀ c ∈ s.toList, c.isDigit := by
    simp
  rw [index?, ← and_assoc, ← hDigits]
  split
  · next h =>
    rw [and_iff_right h, Option.map_eq_some_iff]
    constructor
    · rintro ⟨m, hWord, rfl⟩
      exact ⟨(wordOfDigits?_eq_some_iff.mp hWord).symm, m.toNat_lt⟩
    · rintro ⟨rfl, hFits⟩
      have hWord : (UInt64.ofNat (decimal s)).toNat = decimal s := UInt64.toNat_ofNat_of_lt' hFits
      exact ⟨_, wordOfDigits?_eq_some_iff.mpr hWord, hWord⟩
  · next h => simp [h]

/-- Zeros to stand in front of digits. -/
def zeros (k : Nat) : String := String.ofList (List.replicate k '0')

theorem toList_zeros_append (k : Nat) (s : String) :
    (zeros k ++ s).toList = List.replicate k '0' ++ s.toList := by
  rw [String.toList_append, zeros, String.toList_ofList]

theorem decimal_zeros_append (k : Nat) (s : String) : decimal (zeros k ++ s) = decimal s := by
  rw [decimal, decimal, toList_zeros_append, List.map_append, List.map_replicate,
    List.reverse_append, List.reverse_replicate]
  exact Nat.ofDigits_append_replicate_zero _

/-- Zeros in front of digits do not change an index. -/
theorem index?_zeros_append (k : Nat) {s : String} (h : s ≠ "") :
    index? (zeros k ++ s) = index? s := by
  have hSome : zeros k ++ s ≠ "" := by simp [h]
  have hDigits : (∀ c ∈ (zeros k ++ s).toList, c.isDigit) ↔ ∀ c ∈ s.toList, c.isDigit := by
    rw [toList_zeros_append, List.forall_mem_append]
    refine and_iff_right fun c hc => ?_
    rw [List.eq_of_mem_replicate hc]
    rfl
  ext i
  rw [index?_eq_some_iff, index?_eq_some_iff, hDigits, decimal_zeros_append]
  simp [h, hSome]

/-! ### Paths -/

namespace Value

theorem resolve?_append (v : Value) (p q : List String) :
    v.resolve? (p ++ q) = (v.resolve? p).bind (·.resolve? q) := by
  induction p generalizing v with
  | nil => rfl
  | cons segment p ih =>
    rw [List.cons_append, resolve?_cons, resolve?_cons, Option.bind_assoc]
    simp only [ih]

theorem resolve?_sequence (items : List Value) (s : String) :
    (sequence items).resolve? [s] = (index? s).bind fun i => items[i]? := by
  rw [resolve?_cons, member?]
  simp only [resolve?_nil, Option.bind_fun_some]

/-- Following a path and then another is following both in one, and where the first leads nowhere
so do both. In a sequence a segment leads to an element exactly if it is made of one or more digits
and the number that they denote is less than the number of elements, which fits 64 bits; and then it
leads to the element of that number. Zeros in front make no difference, and a number that does not
fit 64 bits leads nowhere. -/
theorem resolve?_exact (v : Value) (p q : List String) (items : List Value) (s : String) :
    (∀ u, v.resolve? p = some u → v.resolve? (p ++ q) = u.resolve? q) ∧
    (v.resolve? p = none → v.resolve? (p ++ q) = none) ∧
    (items.length ≤ 2 ^ 64 → ∀ w, (sequence items).resolve? [s] = some w ↔
      s ≠ "" ∧ (∀ c ∈ s.toList, c.isDigit) ∧
        ∃ h : decimal s < items.length, items[decimal s] = w) ∧
    (s ≠ "" → ∀ k, (sequence items).resolve? [zeros k ++ s] = (sequence items).resolve? [s]) ∧
    (2 ^ 64 ≤ decimal s → (sequence items).resolve? [s] = none) := by
  refine ⟨fun u h => ?_, fun h => ?_, fun hLength w => ?_, fun h k => ?_, fun hLong => ?_⟩
  · rw [resolve?_append, h, Option.bind_some]
  · rw [resolve?_append, h, Option.bind_none]
  · rw [resolve?_sequence, Option.bind_eq_some_iff]
    constructor
    · rintro ⟨i, hIndex, hItem⟩
      obtain ⟨hSome, hDigits, rfl, -⟩ := index?_eq_some_iff.mp hIndex
      exact ⟨hSome, hDigits, List.getElem?_eq_some_iff.mp hItem⟩
    · rintro ⟨hSome, hDigits, hInside, hItem⟩
      exact ⟨decimal s, index?_eq_some_iff.mpr ⟨hSome, hDigits, rfl, hInside.trans_le hLength⟩,
        List.getElem?_eq_some_iff.mpr ⟨hInside, hItem⟩⟩
  · rw [resolve?_sequence, resolve?_sequence, index?_zeros_append k h]
  · rw [resolve?_sequence, Option.bind_eq_none_iff]
    intro i hIndex
    obtain ⟨-, -, rfl, hFits⟩ := index?_eq_some_iff.mp hIndex
    exact absurd hFits (Nat.not_lt.mpr hLong)

/-- The second of two rows, and a number whose remainder of 64 bits would be that row's. -/
theorem resolve?_exact_rows :
    let row := mapping (.ofList [("a", string "é")])
    let rows := [null, row]
    let v := mapping (.ofList [("rows", sequence rows)])
    (v.resolve? ["rows"] = some (sequence rows) ∧
      v.resolve? (["rows"] ++ ["001", "a"]) = some (string "é")) ∧
    (v.resolve? ["lines"] = none ∧ v.resolve? (["lines"] ++ ["1"]) = none) ∧
    ("1" ≠ "" ∧ (sequence rows).resolve? [zeros 2 ++ "1"] = some row) ∧
    (decimal "18446744073709551617" = 2 ^ 64 + 1 ∧
      (sequence rows).resolve? ["18446744073709551617"] = none) := by
  intro row rows v
  have hLong : decimal "18446744073709551617" = 2 ^ 64 + 1 := by decide +kernel
  obtain ⟨hOn, -, hElement, hZeros, -⟩ := resolve?_exact v ["rows"] ["001", "a"] rows "1"
  obtain ⟨-, hNowhere, -, -, hNone⟩ :=
    resolve?_exact v ["lines"] ["1"] rows "18446744073709551617"
  refine ⟨⟨rfl, ?_⟩, ⟨rfl, hNowhere rfl⟩, ⟨by decide, ?_⟩, hLong, hNone (by omega)⟩
  · rw [hOn _ rfl]
    rfl
  · rw [hZeros (by decide) 2, hElement (by decide)]
    exact ⟨by decide, by simp, by decide +kernel, rfl⟩

end Value
end DocTemplate
