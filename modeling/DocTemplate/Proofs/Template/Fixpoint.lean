import DocTemplate.Proofs.Template.Repair

/-! Repairing a text again. A repair closes at most `maxSectionDepth` of the sections that a text
leaves open; the opens beyond the limit stay text, and once the closes stand in the text they pair
with those opens first. So the second repair appends what the first could not, and a repaired text
is a fixed point exactly when no open beyond the limit was left without a close. -/

namespace DocTemplate

open Token

namespace Token

/-- As many closing tags as `count` says. -/
def closeTags : Nat → String
  | 0 => ""
  | count + 1 => closeTag ++ closeTags count

theorem closeTags_add (m n : Nat) : closeTags (m + n) = closeTags m ++ closeTags n := by
  induction m with
  | zero => simp [closeTags]
  | succ m ih => rw [Nat.succ_add, closeTags, closeTags, ih, String.append_assoc]

theorem utf8ByteSize_closeTags (count : Nat) :
    (closeTags count).utf8ByteSize = count * closeTag.utf8ByteSize := by
  induction count with
  | zero => simp [closeTags]
  | succ count ih => rw [closeTags, String.utf8ByteSize_append, ih, Nat.succ_mul, Nat.add_comm]

theorem append_closeTags_inj {raw : String} {m n : Nat} :
    raw ++ closeTags m = raw ++ closeTags n ↔ m = n := by
  constructor
  · intro h
    have hSize := congrArg String.utf8ByteSize h
    rw [String.utf8ByteSize_append, String.utf8ByteSize_append, utf8ByteSize_closeTags,
      utf8ByteSize_closeTags, show closeTag.utf8ByteSize = 6 from rfl] at hSize
    omega
  · rintro rfl
    rfl

theorem toDirectives_endTags (position count : Nat) :
    toDirectives (endTags position count) = closeTags count := by
  induction count generalizing position with
  | zero => rw [endTags, toDirectives_nil, closeTags]
  | succ count ih => rw [endTags, toDirectives_cons, ih, closeTags]; rfl

end Token

namespace Matching

/-- Each closing tag takes the innermost open away. -/
theorem foldl_step_endTags (stack : List Bracket) (position count : Nat) :
    (endTags position count).foldl step stack = stack.drop count := by
  induction count generalizing stack position with
  | zero => rfl
  | succ count ih =>
    rw [endTags, List.foldl_cons, ih]
    show stack.tail.drop count = _
    rw [List.drop_tail]

/-- All opens in a stack are within the limit if there are no more of them than the limit. -/
theorem forall_isKept_iff (ts : List Token) :
    (∀ b ∈ unmatched ts, b.isKept = true) ↔ (unmatched ts).length ≤ maxSectionDepth := by
  have hAgrees := Nesting.agrees_after ts
  constructor
  · intro hKept
    have hDemoted := (hAgrees.demoted_eq_zero hKept).1
    rw [hAgrees.demoted] at hDemoted
    omega
  · intro hShort
    have hAll := Nesting.filter_isKept hAgrees.around
    rw [Nat.sub_eq_zero_of_le hShort, List.drop_zero] at hAll
    exact List.filter_eq_self.mp hAll

end Matching

namespace Template

open Matching Nesting

theorem repaired_eq_append (raw : String) :
    repaired raw =
      raw ++ closeTags (min (unmatched (scan raw)).length maxSectionDepth) := by
  rw [repaired_eq, toDirectives_append, toDirectives_scan, toDirectives_endTags,
    (agrees_after (scan raw)).depth]

/-- The closing tags pair with the innermost opens, whether these were sections or text. -/
theorem unmatched_scan_repaired (raw : String) :
    unmatched (scan (repaired raw)) =
      (unmatched (scan raw)).drop (min (unmatched (scan raw)).length maxSectionDepth) := by
  rw [scan_repaired, unmatched, List.foldl_append, foldl_step_endTags,
    (agrees_after (scan raw)).depth]
  rfl

/-- After `n` repairs, `n` times the limit of the opens have their closing tag. -/
theorem iterate_repaired (raw : String) (n : Nat) :
    repaired^[n] raw = raw ++ closeTags (min (unmatched (scan raw)).length (maxSectionDepth * n)) ∧
      (unmatched (scan (repaired^[n] raw))).length =
        (unmatched (scan raw)).length - maxSectionDepth * n := by
  induction n with
  | zero => simp [closeTags]
  | succ n ih =>
    obtain ⟨hText, hOpen⟩ := ih
    rw [Function.iterate_succ_apply', Nat.mul_succ]
    constructor
    · rw [repaired_eq_append, hOpen, hText, String.append_assoc, ← closeTags_add]
      congr 2
      omega
    · rw [unmatched_scan_repaired, List.length_drop, hOpen]
      omega

/-- Repairing settles, and it settles at once exactly when no open beyond the depth limit is left
without a close. -/
theorem repaired_fixed_iff (raw : String) :
    (∀ n, repaired^[n] raw =
      raw ++ closeTags (min (unmatched (scan raw)).length (maxSectionDepth * n))) ∧
    (repaired (repaired raw) = repaired raw ↔ ∀ b ∈ unmatched (scan raw), b.isKept = true) := by
  refine ⟨fun n => (iterate_repaired raw n).1, ?_⟩
  have hOnce := (iterate_repaired raw 1).1
  have hTwice := (iterate_repaired raw 2).1
  rw [forall_isKept_iff, show repaired (repaired raw) = _ from hTwice,
    show repaired raw = _ from hOnce, append_closeTags_inj]
  have hLimit : maxSectionDepth = 256 := rfl
  omega

/-- One open more than the limit: the first repair closes all but one of them. -/
theorem repaired_not_fixed_past_limit :
    let raw := String.join (List.replicate (maxSectionDepth + 1) "\x7b#a\x7d")
    repaired raw = raw ++ closeTags maxSectionDepth ∧
      repaired (repaired raw) = raw ++ closeTags (maxSectionDepth + 1) ∧
      repaired (repaired raw) ≠ repaired raw := by
  intro raw
  let opens := (List.range (maxSectionDepth + 1)).map fun i => (⟨.opening "a", 4 * i, 4⟩ : Token)
  have hRaw : raw = toDirectives opens := by
    simp only [opens, toDirectives, List.map_map, Function.comp_def, List.map_const',
      List.length_range]
    rfl
  have hCanonical : Canonical 0 opens := by
    decide +kernel
  have hOpen : (unmatched (scan raw)).length = maxSectionDepth + 1 := by
    rw [hRaw, scan_toDirectives hCanonical]
    decide +kernel
  have hOnce := (iterate_repaired raw 1).1
  have hTwice := (iterate_repaired raw 2).1
  rw [hOpen] at hOnce hTwice
  refine ⟨hOnce, hTwice, fun hFixed => ?_⟩
  have hCount := append_closeTags_inj.mp (hTwice.symm.trans (hFixed.trans hOnce))
  exact absurd hCount (by decide)

end Template
end DocTemplate
