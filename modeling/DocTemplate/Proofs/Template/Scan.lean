import DocTemplate.Proofs.Template.Directive
import Mathlib.Data.List.Chain
import Mathlib.Data.List.Infix

/-! Scanning and writing back. The scanner maps each text to a canonical token list that writes back
as the text, and each canonical token list is what the scanner makes of its own text. A canonical
list covers its text without a gap, holds only names of the grammar, and keeps literal text in
pieces as large as possible: no directive starts inside one and no two are neighbours. -/

namespace DocTemplate.Token

open Text

/-! ### Canonical token lists -/

def Kind.IsLiteral (kind : Kind) : Prop := ∃ text, kind = .literal text

/-- A directive of the grammar, or literal text that is not empty and holds no whole directive. -/
def Kind.IsCanonical : Kind → Prop
  | .literal text => text ≠ "" ∧ ∀ s, s <:+ text.toList → ¬StartsDirective s
  | kind => kind.IsDirective

/-- The spans follow one another from byte `position` on, each as long as its token is written. -/
def Contiguous : Nat → List Token → Prop
  | _, [] => True
  | position, t :: ts =>
    t.start = position ∧ t.length = t.kind.directiveText.utf8ByteSize ∧ Contiguous t.stop ts

/-- Two neighbours that the scanner would not have joined. -/
def Separate (a b : Token) : Prop := ¬(a.kind.IsLiteral ∧ b.kind.IsLiteral)

/-- The token lists that stand for a text from byte `position` on as the scanner cuts it. -/
structure Canonical (position : Nat) (ts : List Token) : Prop where
  contiguous : Contiguous position ts
  kinds : ∀ t ∈ ts, t.kind.IsCanonical
  separate : ts.IsChain Separate

instance (kind : Kind) : Decidable kind.IsLiteral :=
  match kind with
  | .literal text => isTrue ⟨text, rfl⟩
  | .var _ | .opening _ | .closing _ => isFalse (by rintro ⟨text, hEq⟩; cases hEq)

instance (kind : Kind) : Decidable kind.IsCanonical :=
  match kind with
  | .literal text => decidable_of_iff (text ≠ "" ∧ ∀ s ∈ text.toList.tails, ¬StartsDirective s)
      (by simp only [List.mem_tails]; rfl)
  | .var path => inferInstanceAs (Decidable (Kind.var path).IsDirective)
  | .opening name => inferInstanceAs (Decidable (Kind.opening name).IsDirective)
  | .closing name => inferInstanceAs (Decidable (Kind.closing name).IsDirective)

instance Contiguous.decidable : (position : Nat) → (ts : List Token) →
    Decidable (Contiguous position ts)
  | _, [] => isTrue trivial
  | position, t :: ts =>
    have := Contiguous.decidable t.stop ts
    inferInstanceAs (Decidable (t.start = position ∧
      t.length = t.kind.directiveText.utf8ByteSize ∧ Contiguous t.stop ts))

instance (a b : Token) : Decidable (Separate a b) :=
  inferInstanceAs (Decidable (¬(a.kind.IsLiteral ∧ b.kind.IsLiteral)))

instance (position : Nat) (ts : List Token) : Decidable (Canonical position ts) :=
  decidable_of_iff (Contiguous position ts ∧ (∀ t ∈ ts, t.kind.IsCanonical) ∧
      ts.IsChain Separate)
    ⟨fun ⟨hSpans, hKinds, hSeparate⟩ => ⟨hSpans, hKinds, hSeparate⟩,
      fun ⟨hSpans, hKinds, hSeparate⟩ => ⟨hSpans, hKinds, hSeparate⟩⟩

/-- No directive starts inside `text` when `rest` follows it. -/
def Free (text rest : List Char) : Prop :=
  ∀ s, s <:+ text → s ≠ [] → ¬StartsDirective (s ++ rest)

theorem free_nil {rest : List Char} : Free [] rest :=
  fun _ hs hne => absurd (List.suffix_nil.mp hs) hne

theorem Canonical.nil (position : Nat) : Canonical position [] :=
  ⟨trivial, by simp, List.isChain_nil⟩

theorem canonical_cons {position : Nat} {t : Token} {ts : List Token} :
    Canonical position (t :: ts) ↔
      t.start = position ∧ t.length = t.kind.directiveText.utf8ByteSize ∧ t.kind.IsCanonical ∧
        (∀ u ∈ ts.head?, Separate t u) ∧ Canonical t.stop ts := by
  constructor
  · rintro ⟨⟨hStart, hLength, hSpans⟩, hKinds, hSeparate⟩
    rw [List.isChain_cons] at hSeparate
    exact ⟨hStart, hLength, hKinds t (by simp), hSeparate.1, hSpans,
      fun u hu => hKinds u (by simp [hu]), hSeparate.2⟩
  · rintro ⟨hStart, hLength, hKind, hHead, hSpans, hKinds, hSeparate⟩
    refine ⟨⟨hStart, hLength, hSpans⟩, fun u hu => ?_, List.isChain_cons.mpr ⟨hHead, hSeparate⟩⟩
    rcases List.mem_cons.mp hu with rfl | hTail
    · exact hKind
    · exact hKinds u hTail

theorem not_startsDirective_nil : ¬StartsDirective [] := by
  rintro ⟨kind, hKind, hPrefix⟩
  obtain ⟨inner, hText, -⟩ := exists_directiveText_eq hKind
  rw [hText] at hPrefix
  exact absurd (List.prefix_nil.mp hPrefix) (by simp)

theorem Kind.IsCanonical.isDirective {kind : Kind} (h : kind.IsCanonical)
    (hLiteral : ¬kind.IsLiteral) : kind.IsDirective := by
  cases kind with
  | literal text => exact absurd ⟨text, rfl⟩ hLiteral
  | var | opening | closing => exact h

theorem Kind.IsDirective.not_isLiteral {kind : Kind} (h : kind.IsDirective) : ¬kind.IsLiteral := by
  rintro ⟨text, rfl⟩
  exact h

theorem Kind.IsDirective.isCanonical {kind : Kind} (h : kind.IsDirective) : kind.IsCanonical := by
  cases kind with
  | literal => exact h.elim
  | var | opening | closing => exact h

/-- A directive stands before any list that goes on where it ends. -/
theorem Kind.IsDirective.canonical_cons {kind : Kind} (h : kind.IsDirective) {position length : Nat}
    {ts : List Token} (hLength : length = kind.directiveText.utf8ByteSize)
    (hTail : Canonical (position + length) ts) :
    Canonical position (⟨kind, position, length⟩ :: ts) :=
  Token.canonical_cons.mpr
    ⟨rfl, hLength, h.isCanonical, fun _ _ hBoth => h.not_isLiteral hBoth.1, hTail⟩

/-! ### The text of a token list -/

@[simp] theorem toDirectives_nil : toDirectives [] = "" := by simp [toDirectives]

@[simp] theorem toDirectives_cons (t : Token) (ts : List Token) :
    toDirectives (t :: ts) = t.kind.directiveText ++ toDirectives ts := by
  simp [toDirectives, String.join_cons]

@[simp] theorem toDirectives_append (as bs : List Token) :
    toDirectives (as ++ bs) = toDirectives as ++ toDirectives bs := by
  induction as with
  | nil => simp
  | cons t ts ih => rw [List.cons_append, toDirectives_cons, toDirectives_cons, ih,
      String.append_assoc]

/-- The last of contiguous tokens ends where their text ends. -/
theorem Contiguous.stop_getLast {position : Nat} {ts : List Token} (h : Contiguous position ts) :
    ts.getLast?.elim position Token.stop = position + (toDirectives ts).utf8ByteSize := by
  induction ts generalizing position with
  | nil => simp
  | cons t ts ih =>
    obtain ⟨rfl, hLength, hSpans⟩ := h
    have hRest := ih hSpans
    rw [toDirectives_cons, String.utf8ByteSize_append, ← hLength, ← Nat.add_assoc]
    rw [Token.stop] at hRest
    rw [← hRest, List.getLast?_cons]
    cases ts.getLast? <;> rfl

theorem Canonical.length_ne_zero {position : Nat} {ts : List Token} (h : Canonical position ts) :
    ∀ t ∈ ts, t.length ≠ 0 := by
  induction ts generalizing position with
  | nil => simp
  | cons t ts ih =>
    obtain ⟨-, hLength, hKind, -, hTail⟩ := canonical_cons.mp h
    intro u hu
    rcases List.mem_cons.mp hu with rfl | hu'
    · rw [hLength, ne_eq, String.utf8ByteSize_eq_zero_iff, ← String.toList_inj]
      by_cases hLiteral : u.kind.IsLiteral
      · obtain ⟨kind, start, length⟩ := u
        obtain ⟨text, rfl⟩ := hLiteral
        simpa [Kind.directiveText] using hKind.1
      · obtain ⟨inner, hText, -⟩ := exists_directiveText_eq (hKind.isDirective hLiteral)
        simp [hText]
    · exact ih hTail u hu'

/-- What follows literal text is nothing or begins with a brace. -/
theorem Canonical.head_toDirectives {position : Nat} {ts : List Token} (h : Canonical position ts)
    (hHead : ∀ t ∈ ts.head?, ¬t.kind.IsLiteral) :
    ∀ c ∈ (toDirectives ts).toList.head?, c = '{' := by
  cases ts with
  | nil => simp
  | cons t ts =>
    obtain ⟨-, -, hKind, -, -⟩ := canonical_cons.mp h
    obtain ⟨inner, hText, -⟩ := exists_directiveText_eq (hKind.isDirective (hHead t rfl))
    simp [hText, eq_comm]

/-- A directive that starts in a literal token would have to end in it. -/
theorem Canonical.free {position start length : Nat} {text : String} {ts : List Token}
    (h : Canonical position (⟨.literal text, start, length⟩ :: ts)) :
    Free text.toList (toDirectives ts).toList := by
  obtain ⟨-, -, ⟨-, hText⟩, hHead, hTail⟩ := canonical_cons.mp h
  intro s hs hne hStarts
  refine hText s hs (hStarts.of_append hne (hTail.head_toDirectives fun u hu hLiteral => ?_))
  exact hHead u hu ⟨⟨text, rfl⟩, hLiteral⟩

/-- One list goes on where another ends, if the scanner would not join the tokens at the seam. -/
theorem Canonical.append_of_separate {position : Nat} {as bs : List Token}
    (ha : Canonical position as)
    (hb : Canonical (position + (toDirectives as).utf8ByteSize) bs)
    (hSeam : ∀ t ∈ as.getLast?, ∀ u ∈ bs.head?, Separate t u) : Canonical position (as ++ bs) := by
  induction as generalizing position with
  | nil => simpa using hb
  | cons t ts ih =>
    obtain ⟨rfl, hLength, hKind, hNext, hTail⟩ := canonical_cons.mp ha
    have hStop : t.start + (toDirectives (t :: ts)).utf8ByteSize =
        t.stop + (toDirectives ts).utf8ByteSize := by
      rw [toDirectives_cons, String.utf8ByteSize_append, ← hLength, Token.stop, Nat.add_assoc]
    rw [hStop] at hb
    cases ts with
    | nil =>
      rw [toDirectives_nil, String.utf8ByteSize_empty, Nat.add_zero] at hb
      exact canonical_cons.mpr ⟨rfl, hLength, hKind, hSeam t rfl, hb⟩
    | cons v vs =>
      refine canonical_cons.mpr ⟨rfl, hLength, hKind, fun u hu => hNext u hu, ih hTail hb ?_⟩
      rwa [List.getLast?_cons_cons] at hSeam

/-- A list that begins with a directive goes on where another list ends. -/
theorem Canonical.append {position : Nat} {as bs : List Token} (ha : Canonical position as)
    (hb : Canonical (position + (toDirectives as).utf8ByteSize) bs)
    (hHead : ∀ t ∈ bs.head?, ¬t.kind.IsLiteral) : Canonical position (as ++ bs) :=
  ha.append_of_separate hb fun _ _ u hu hBoth => hHead u hu hBoth.2

/-! ### The scanner's steps -/

theorem scanFrom_directive {cs text rest : List Char} {kind : Kind}
    (h : directive? cs = some (kind, text, rest)) (position : Nat) (pending : List Char) :
    scanFrom position pending cs = literalEnding pending.reverse position ++
      ⟨kind, position, byteLength text⟩ :: scanFrom (position + byteLength text) [] rest := by
  rw [scanFrom]
  split
  · next hRead =>
    rw [h] at hRead
    cases hRead
    rfl
  · next hRead => simp [h] at hRead

theorem scanFrom_nil (position : Nat) (pending : List Char) :
    scanFrom position pending [] = literalEnding pending.reverse position := by
  rw [scanFrom]
  rfl

theorem scanFrom_cons {c : Char} {cs : List Char} (h : directive? (c :: cs) = none)
    (position : Nat) (pending : List Char) :
    scanFrom position pending (c :: cs) =
      scanFrom (position + c.utf8Size) (c :: pending) cs := by
  rw [scanFrom]
  split
  · next hRead => simp [h] at hRead
  · rfl

theorem literalEnding_nil (stop : Nat) : literalEnding [] stop = [] := rfl

theorem literalEnding_of_ne_nil {text : List Char} (h : text ≠ []) (start : Nat) :
    literalEnding text (start + byteLength text) =
      [⟨.literal (String.ofList text), start, byteLength text⟩] := by
  simp [literalEnding, h]

/-! ### Scanning makes a canonical list of the text -/

/-- Nothing of the text is lost or added, wherever the scanner stands. -/
theorem toList_toDirectives_scanFrom (position : Nat) (pending cs : List Char) :
    (toDirectives (scanFrom position pending cs)).toList = pending.reverse ++ cs := by
  have hLiteral : ∀ (text : List Char) (stop : Nat),
      (toDirectives (literalEnding text stop)).toList = text := by
    intro text stop
    unfold literalEnding
    split
    · next hEmpty => simpa using hEmpty.symm
    · simp [Kind.directiveText]
  induction position, pending, cs using scanFrom.induct with
  | case1 position pending cs kind text rest hRead length ih =>
    obtain ⟨-, rfl, rfl⟩ := directive?_eq_some_iff.mp hRead
    rw [scanFrom_directive hRead]
    simp [hLiteral, ih, length]
  | case2 position pending =>
    rw [scanFrom_nil]
    simp [hLiteral]
  | case3 position pending c cs hRead ih =>
    rw [scanFrom_cons hRead, ih]
    simp

/-- Literal text before a list that begins with a directive, or before nothing. -/
theorem Canonical.literalEnding_append {start : Nat} {text : List Char} {ts : List Token}
    (h : Canonical (start + byteLength text) ts) (hText : ∀ s, s <:+ text → ¬StartsDirective s)
    (hHead : ∀ t ∈ ts.head?, ¬t.kind.IsLiteral) :
    Canonical start (literalEnding text (start + byteLength text) ++ ts) := by
  by_cases hne : text = []
  · subst hne
    simpa [literalEnding_nil] using h
  · rw [literalEnding_of_ne_nil hne]
    refine canonical_cons.mpr ⟨rfl, ?_, ⟨?_, ?_⟩, fun t ht hBoth => hHead t ht hBoth.2, h⟩
    · rw [Kind.directiveText, ← byteLength_toList, String.toList_ofList]
    · simpa using hne
    · rwa [String.toList_ofList]

theorem Free.of_cons {text : List Char} {c : Char} {cs : List Char} (h : Free text (c :: cs))
    (hHere : ¬StartsDirective (c :: cs)) : Free (text ++ [c]) cs := by
  intro s hs hne hStarts
  rcases List.suffix_concat_iff.mp hs with rfl | ⟨s', rfl, hs'⟩
  · exact hne rfl
  · rw [List.append_assoc, List.singleton_append] at hStarts
    by_cases hEmpty : s' = []
    · subst hEmpty
      exact hHere hStarts
    · exact h s' hs' hEmpty hStarts

theorem Free.suffix {text rest : List Char} (h : Free text rest) :
    ∀ s, s <:+ text → ¬StartsDirective s := by
  intro s hs hStarts
  by_cases hne : s = []
  · subst hne
    exact not_startsDirective_nil hStarts
  · exact h s hs hne (hStarts.append rest)

/-- The loop's invariant: no directive starts in the pending text, which ends at `position`. -/
theorem canonical_scanFrom (position : Nat) (pending cs : List Char) :
    ∀ start, position = start + byteLength pending.reverse → Free pending.reverse cs →
      Canonical start (scanFrom position pending cs) := by
  induction position, pending, cs using scanFrom.induct with
  | case1 position pending cs kind text rest hRead length ih =>
    rintro start rfl hFree
    obtain ⟨hKind, rfl, -⟩ := directive?_eq_some_iff.mp hRead
    have hRest := ih (start + byteLength pending.reverse + length) (by simp) free_nil
    rw [scanFrom_directive hRead]
    refine Canonical.literalEnding_append (hKind.canonical_cons (byteLength_toList _) hRest)
      hFree.suffix ?_
    simpa using hKind.not_isLiteral
  | case2 position pending =>
    rintro start rfl hFree
    rw [scanFrom_nil, ← List.append_nil (literalEnding _ _)]
    exact (Canonical.nil _).literalEnding_append hFree.suffix (by simp)
  | case3 position pending c cs hRead ih =>
    rintro start rfl hFree
    rw [scanFrom_cons hRead]
    refine ih start ?_ ?_
    · simp [Nat.add_assoc]
    · rw [List.reverse_cons]
      exact hFree.of_cons (directive?_eq_none_iff.mp hRead)

theorem toDirectives_scan (raw : String) : toDirectives (scan raw) = raw := by
  apply String.toList_inj.mp
  rw [scan, toList_toDirectives_scanFrom]
  rfl

theorem canonical_scan (raw : String) : Canonical 0 (scan raw) :=
  canonical_scanFrom 0 [] raw.toList 0 (by simp) free_nil

/-! ### A canonical list is what the scanner makes of its text -/

/-- Literal text that is free of directives waits for what follows it. -/
theorem scanFrom_free {text rest : List Char} (h : Free text rest) (position : Nat)
    (pending : List Char) :
    scanFrom position pending (text ++ rest) =
      scanFrom (position + byteLength text) (text.reverse ++ pending) rest := by
  induction text generalizing position pending with
  | nil => simp
  | cons c text ih =>
    have hHere : directive? (c :: (text ++ rest)) = none :=
      directive?_eq_none_iff.mpr (h (c :: text) List.suffix_rfl (by simp))
    have hText : Free text rest := fun s hs => h s (hs.trans (List.suffix_cons c text))
    rw [List.cons_append, scanFrom_cons hHere, ih hText]
    simp [Nat.add_assoc]

/-- Pending text becomes a token of its own before a directive and at the end. -/
theorem scanFrom_pending {rest : List Char} (h : rest ≠ [] → StartsDirective rest)
    (position : Nat) (pending : List Char) :
    scanFrom position pending rest =
      literalEnding pending.reverse position ++ scanFrom position [] rest := by
  by_cases hne : rest = []
  · subst hne
    rw [scanFrom_nil, scanFrom_nil, List.reverse_nil, literalEnding_nil, List.append_nil]
  · obtain ⟨kind, hKind, rest', rfl⟩ := h hne
    rw [scanFrom_directive (directive?_append hKind rest'),
      scanFrom_directive (directive?_append hKind rest') position [], List.reverse_nil,
      literalEnding_nil, List.nil_append]

theorem Canonical.startsDirective {position : Nat} {ts : List Token} (h : Canonical position ts)
    (hHead : ∀ t ∈ ts.head?, ¬t.kind.IsLiteral) (hne : (toDirectives ts).toList ≠ []) :
    StartsDirective (toDirectives ts).toList := by
  cases ts with
  | nil => simp at hne
  | cons t ts =>
    obtain ⟨-, -, hKind, -, -⟩ := canonical_cons.mp h
    exact ⟨t.kind, hKind.isDirective (hHead t rfl), by simp⟩

theorem scanFrom_toDirectives {position : Nat} {ts : List Token} (h : Canonical position ts) :
    scanFrom position [] (toDirectives ts).toList = ts := by
  induction ts generalizing position with
  | nil => rw [toDirectives_nil, String.toList_empty, scanFrom_nil]; rfl
  | cons t ts ih =>
    obtain ⟨kind, start, length⟩ := t
    obtain ⟨rfl, hLength, hKind, hHead, hTail⟩ := canonical_cons.mp h
    rw [toDirectives_cons, String.toList_append]
    replace hLength : length = byteLength kind.directiveText.toList := by
      rw [byteLength_toList, ← hLength]
    by_cases hLiteral : kind.IsLiteral
    · obtain ⟨text, rfl⟩ := hLiteral
      have hRest := hTail.startsDirective fun u hu hBoth => hHead u hu ⟨⟨text, rfl⟩, hBoth⟩
      have hText : text.toList ≠ [] := by simpa using hKind.1
      rw [Kind.directiveText, scanFrom_free h.free, scanFrom_pending hRest, List.append_nil,
        List.reverse_reverse, literalEnding_of_ne_nil hText, String.ofList_toList]
      rw [Kind.directiveText] at hLength
      subst hLength
      rw [show start + byteLength text.toList = Token.stop ⟨.literal text, start, _⟩ from rfl,
        ih hTail]
      rfl
    · rw [scanFrom_directive (directive?_append (hKind.isDirective hLiteral) _), ← hLength,
        show start + length = Token.stop ⟨kind, start, length⟩ from rfl, ih hTail]
      rfl

theorem scan_toDirectives {ts : List Token} (h : Canonical 0 ts) : scan (toDirectives ts) = ts :=
  scanFrom_toDirectives h

theorem scan_eq {raw : String} {ts : List Token} (hText : raw = toDirectives ts)
    (h : Canonical 0 ts) : scan raw = ts := by
  rw [hText, scan_toDirectives h]

/-! ### The text that remains at a place inside a literal -/

theorem Contiguous.le_start {position : Nat} {ts : List Token} (h : Contiguous position ts) :
    ∀ t ∈ ts, position ≤ t.start := by
  induction ts generalizing position with
  | nil => simp
  | cons t ts ih =>
    obtain ⟨rfl, -, hSpans⟩ := h
    intro u hu
    rcases List.mem_cons.mp hu with rfl | hTail
    · exact Nat.le_refl _
    · exact Nat.le_trans (Nat.le_add_right t.start t.length) (ih hSpans u hTail)

/-- At no character inside a literal token does a directive start, however much text follows. -/
theorem Canonical.not_startsDirective {position : Nat} {ts : List Token}
    (h : Canonical position ts) {before rest : List Char}
    (hText : (toDirectives ts).toList = before ++ rest) {t : Token} (ht : t ∈ ts)
    (hLiteral : t.kind.IsLiteral) (hLow : t.start ≤ position + byteLength before)
    (hHigh : position + byteLength before < t.stop) : ¬StartsDirective rest := by
  induction ts generalizing position before with
  | nil => simp at ht
  | cons u ts ih =>
    obtain ⟨rfl, hLength, -, -, hTail⟩ := canonical_cons.mp h
    rw [toDirectives_cons, String.toList_append] at hText
    rw [← byteLength_toList] at hLength
    -- Either `before` ends inside the first token or it covers the token.
    rcases List.append_eq_append_iff.mp hText with ⟨more, rfl, hMore⟩ | ⟨tail, hOver, rfl⟩
    · rw [byteLength_append] at hLow hHigh
      rcases List.mem_cons.mp ht with rfl | htTail
      · rw [Token.stop, hLength] at hHigh
        omega
      · refine ih hTail hMore htTail ?_ ?_ <;> rw [Token.stop, hLength] <;> omega
    · rw [hOver, byteLength_append] at hLength
      rcases List.mem_cons.mp ht with rfl | htTail
      · obtain ⟨kind, start, length⟩ := t
        obtain ⟨text, rfl⟩ := hLiteral
        have hne : tail ≠ [] := by
          rintro rfl
          rw [Token.stop, hLength, byteLength_nil] at hHigh
          simp only at hHigh
          omega
        refine h.free tail ?_ hne
        rw [show text.toList = before ++ tail from hOver]
        exact List.suffix_append before tail
      · have hLe := hTail.contiguous.le_start t htTail
        have hNil : tail = [] := by
          by_contra hne
          have hPos := byteLength_pos hne
          rw [Token.stop] at hLe
          omega
        subst hNil
        rw [Token.stop] at hLe
        simp only [byteLength_nil, Nat.add_zero] at hLength
        refine ih hTail (List.nil_append _).symm htTail ?_ ?_ <;>
          rw [byteLength_nil, Token.stop, hLength] <;> omega

/-! ### Scanning and writing back are inverse -/

theorem scan_toDirectives_inverse :
    (∀ raw : String,
      toDirectives (scan raw) = raw ∧ Canonical 0 (scan raw) ∧
        (scan raw).getLast?.elim 0 Token.stop = raw.utf8ByteSize ∧
        (∀ t ∈ scan raw, t.length ≠ 0) ∧
        ∀ t ∈ scan raw, t.kind.IsLiteral → ∀ before rest, raw.toList = before ++ rest →
          t.start ≤ byteLength before → byteLength before < t.stop → ¬StartsDirective rest) ∧
    ∀ ts : List Token, Canonical 0 ts → scan (toDirectives ts) = ts := by
  refine ⟨fun raw => ⟨toDirectives_scan raw, canonical_scan raw, ?_,
    (canonical_scan raw).length_ne_zero, ?_⟩, fun ts => scan_toDirectives⟩
  · rw [(canonical_scan raw).contiguous.stop_getLast, toDirectives_scan, Nat.zero_add]
  · intro t ht hLiteral before rest hRaw hLow hHigh
    have hText : (toDirectives (scan raw)).toList = before ++ rest := by
      rw [toDirectives_scan, hRaw]
    exact (canonical_scan raw).not_startsDirective hText ht hLiteral (by omega) (by omega)

/-- Braces that open nothing, a name with a brace inside, and characters of several bytes. -/
theorem scan_toDirectives_nested_braces :
    Canonical 0 [⟨.literal "\x7b", 0, 1⟩, ⟨.var "x-1", 1, 5⟩, ⟨.literal "\x7dé\x7b#a", 6, 6⟩,
      ⟨.opening "b", 12, 4⟩, ⟨.closing none, 16, 6⟩, ⟨.literal "\x7b#end", 22, 5⟩] ∧
    scan (toDirectives [⟨.literal "\x7b", 0, 1⟩, ⟨.var "x-1", 1, 5⟩,
      ⟨.literal "\x7dé\x7b#a", 6, 6⟩, ⟨.opening "b", 12, 4⟩, ⟨.closing none, 16, 6⟩,
      ⟨.literal "\x7b#end", 22, 5⟩]) =
      [⟨.literal "\x7b", 0, 1⟩, ⟨.var "x-1", 1, 5⟩, ⟨.literal "\x7dé\x7b#a", 6, 6⟩,
        ⟨.opening "b", 12, 4⟩, ⟨.closing none, 16, 6⟩, ⟨.literal "\x7b#end", 22, 5⟩] := by
  have h : Canonical 0 [⟨.literal "\x7b", 0, 1⟩, ⟨.var "x-1", 1, 5⟩,
      ⟨.literal "\x7dé\x7b#a", 6, 6⟩, ⟨.opening "b", 12, 4⟩, ⟨.closing none, 16, 6⟩,
      ⟨.literal "\x7b#end", 22, 5⟩] := by
    decide
  exact ⟨h, scan_toDirectives_inverse.2 _ h⟩

end DocTemplate.Token
