import DocTemplate.Proofs.Template.Concat
import DocTemplate.Proofs.Template.Fixpoint
import DocTemplate.Proofs.Template.Place

/-! What balancing keeps of a text. Every token keeps its span and is written as the text there,
whether it stays a tag or becomes text, so the tokens cover the text once and in order. Only the
closes of the sections left open are new; they stand at the end and cover nothing. -/

namespace DocTemplate

open Token

namespace Token

/-! ### Spans that follow one another -/

/-- The tokens follow one another from byte `first` to byte `last`, without a gap. -/
def Tiles : Nat → List Token → Nat → Prop
  | first, [], last => first = last
  | first, t :: ts, last => t.start = first ∧ Tiles t.stop ts last

theorem Tiles.append {first middle last : Nat} {as bs : List Token} (ha : Tiles first as middle)
    (hb : Tiles middle bs last) : Tiles first (as ++ bs) last := by
  induction as generalizing first with
  | nil =>
    obtain rfl : first = middle := ha
    exact hb
  | cons t ts ih => exact ⟨ha.1, ih ha.2⟩

theorem Contiguous.tiles {position : Nat} {ts : List Token} (h : Contiguous position ts) :
    Tiles position ts (position + (toDirectives ts).utf8ByteSize) := by
  induction ts generalizing position with
  | nil =>
    rw [toDirectives_nil]
    rfl
  | cons t ts ih =>
    obtain ⟨rfl, hLength, hSpans⟩ := h
    have hTail := ih hSpans
    refine ⟨rfl, ?_⟩
    rwa [toDirectives_cons, String.utf8ByteSize_append, ← hLength, ← Nat.add_assoc]

theorem Contiguous.length_eq {position : Nat} {ts : List Token} (h : Contiguous position ts) :
    ∀ t ∈ ts, t.length = t.kind.directiveText.utf8ByteSize := by
  induction ts generalizing position with
  | nil => simp
  | cons t ts ih => exact List.forall_mem_cons.mpr ⟨h.2.1, ih h.2.2⟩

theorem tiles_empty {position : Nat} {ts : List Token}
    (h : ∀ t ∈ ts, t.start = position ∧ t.length = 0) : Tiles position ts position := by
  induction ts with
  | nil => rfl
  | cons t ts ih =>
    obtain ⟨⟨hStart, hLength⟩, hTail⟩ := List.forall_mem_cons.mp h
    refine ⟨hStart, ?_⟩
    rw [Token.stop, hStart, hLength]
    exact ih hTail

end Token

namespace Nesting

open Matching

theorem Rule.span {n : Nesting} {t : Token} {result : Repair × Nesting} (h : Rule n t result) :
    result.1.token.start = t.start ∧ result.1.token.length = t.length := by
  cases h <;> exact ⟨rfl, rfl⟩

/-- Repairs keep the spans, and they keep them as long as the tokens are written. -/
theorem contiguous_pushAll {position : Nat} {ts : List Token} (h : Contiguous position ts)
    (n : Nesting) : Contiguous position ((n.pushAll ts).1.map Repair.token) := by
  induction ts generalizing n position with
  | nil => trivial
  | cons t ts ih =>
    obtain ⟨hStart, hLength, hSpans⟩ := h
    obtain ⟨hSameStart, hSameLength⟩ := (rule_push n t).span
    have hText := (rule_push n t).directiveText
    rw [pushAll_cons, List.map_cons]
    refine ⟨hSameStart.trans hStart, ?_, ?_⟩
    · rw [hSameLength, hText, hLength]
    · rw [Token.stop, hSameStart, hSameLength]
      exact ih hSpans _

theorem length_pushAll (n : Nesting) (ts : List Token) : (n.pushAll ts).1.length = ts.length := by
  induction ts generalizing n with
  | nil => rfl
  | cons t ts ih => rw [pushAll_cons, List.length_cons, ih, List.length_cons]

/-- The sections left open are the opens without a close that are within the limit. -/
theorem length_filter_isKept (ts : List Token) :
    ((unmatched ts).filter Bracket.isKept).length = (after ts).depth := by
  rw [filter_isKept (agrees_after ts).around, List.length_drop, (agrees_after ts).depth]
  omega

end Nesting

namespace Template

open Matching Nesting

/-- The sections that the text leaves open, innermost first. -/
def unclosed (raw : String) : List Bracket := (unmatched (scan raw)).filter Bracket.isKept

/-- The tokens of a template cover its text once and in order, and each is written as the text that
it covers. The closes of the sections left open, innermost first, come after them at the end. -/
theorem tokens_cover (raw : String) :
    toDirectives (compile raw).tokens = raw ++ closeTags (unclosed raw).length ∧
      Tiles 0 (compile raw).tokens raw.utf8ByteSize ∧
      ∃ read : List Token,
        (compile raw).tokens = read ++
            (unclosed raw).map (fun b => ⟨.closing (some b.name), raw.utf8ByteSize, 0⟩) ∧
          read.length = (scan raw).length ∧ Tiles 0 read raw.utf8ByteSize ∧
          (∀ t ∈ read, t.length = t.kind.directiveText.utf8ByteSize ∧
            Text.StandsAt raw t.start t.kind.directiveText) ∧
          Balanced.opens read = (unclosed raw).length + Balanced.closes read := by
  have hLeft : (unclosed raw).length = (after (scan raw)).depth := length_filter_isKept (scan raw)
  let read := (Nesting.empty.pushAll (scan raw)).1.map Repair.token
  have hTokens : (compile raw).tokens = read ++
      (unclosed raw).map (fun b => ⟨.closing (some b.name), raw.utf8ByteSize, 0⟩) := by
    rw [show (compile raw).tokens = _ from tokens_ofTokens (scan raw), closeAll_eq_endings, endings,
      List.map_map, lastStop_scan]
    rfl
  have hText : toDirectives read = raw := by
    rw [show toDirectives read = _ from toDirectives_pushAll _ _, toDirectives_scan]
  have hSpans : Contiguous 0 read := contiguous_pushAll (canonical_scan raw).contiguous _
  have hRead : Tiles 0 read raw.utf8ByteSize := by
    have hTiles := hSpans.tiles
    rwa [hText, Nat.zero_add] at hTiles
  refine ⟨?_, ?_, read, hTokens, ?_, hRead, fun t ht => ⟨hSpans.length_eq t ht, ?_⟩, ?_⟩
  · rw [hLeft, (agrees_after (scan raw)).depth]
    exact repaired_eq_append raw
  · rw [hTokens]
    refine hRead.append (tiles_empty fun t ht => ?_)
    obtain ⟨b, -, rfl⟩ := List.mem_map.mp ht
    exact ⟨rfl, rfl⟩
  · rw [show read.length = _ from List.length_map _, length_pushAll]
  · have hStands := hSpans.standsAt ht
    rwa [hText] at hStands
  · have hCount := depth_pushAll .empty (scan raw)
    rw [show Nesting.empty.depth = 0 from rfl, Nat.zero_add] at hCount
    rw [hLeft]
    exact hCount

/-- A close without an open, which becomes text, and two sections left open. -/
theorem tokens_cover_unclosed :
    let raw := "é\x7b#end\x7d\x7b#a\x7d\x7b#b\x7d"
    let orphan : Token := ⟨.literal closeTag, 2, 6⟩
    toDirectives (compile raw).tokens = raw ++ closeTags 2 ∧
      Tiles 0 (compile raw).tokens 16 ∧ orphan ∈ (compile raw).tokens ∧
      orphan.length = closeTag.utf8ByteSize ∧ Text.StandsAt raw 2 closeTag := by
  intro raw orphan
  have hScan : scan raw =
      [⟨.literal "é", 0, 2⟩, ⟨.closing none, 2, 6⟩, ⟨.opening "a", 8, 4⟩, ⟨.opening "b", 12, 4⟩] :=
    scan_eq (by decide) (by decide)
  have hLeft : unclosed raw = [⟨"b", 12, 1⟩, ⟨"a", 8, 0⟩] := by
    rw [unclosed, hScan]
    decide
  have hOrphan : orphan ∈ (compile raw).tokens := by
    show orphan ∈ (Balanced.ofTokens (scan raw)).tokens
    rw [hScan]
    decide
  obtain ⟨hText, hTiles, read, hTokens, -, -, hEach, -⟩ := tokens_cover raw
  rw [hLeft] at hText hTokens
  have hRead : orphan ∈ read := by
    rw [hTokens, List.mem_append] at hOrphan
    exact hOrphan.resolve_right (by decide)
  obtain ⟨hLength, hStands⟩ := hEach orphan hRead
  exact ⟨hText, hTiles, hOrphan, hLength, hStands⟩

end Template
end DocTemplate
