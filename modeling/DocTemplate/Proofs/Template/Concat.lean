import DocTemplate.Proofs.Template.Repair
import DocTemplate.Proofs.Template.Shift

/-! Templates one after the other. If no directive can lie across the seam and the first text leaves
no section open, then the two texts together make the document of the first followed by that of the
second. At the seam two pieces of literal text may become one token and one node, which changes
nothing that is written. -/

namespace DocTemplate

open Token

/-! ### Scanning across a seam -/

namespace Token

/-- No directive lies across the end of `a` when `b` follows: `a` ends with the brace that only ends
a directive, or `b` begins with the one that only begins it. -/
def Seam (a b : List Char) : Prop := a.getLast? = some '}' ∨ b.head? = some '{'

theorem Seam.startsDirective {a b s : List Char} (h : Seam a b) (hs : s <:+ a) (hne : s ≠ [])
    (hStarts : StartsDirective (s ++ b)) : StartsDirective s := by
  rcases h with hLast | hHead
  · refine hStarts.of_append_brace ?_
    obtain ⟨before, rfl⟩ := hs
    rwa [List.getLast?_append_of_ne_nil _ hne] at hLast
  · refine hStarts.of_append hne fun c hc => ?_
    rw [hHead, Option.mem_some_iff] at hc
    exact hc.symm

/-- Literal text on both sides of a seam is literal text across it. -/
theorem Seam.isCanonical {s u : String} (h : Seam s.toList u.toList)
    (hs : (Kind.literal s).IsCanonical) (hu : (Kind.literal u).IsCanonical) :
    (Kind.literal (s ++ u)).IsCanonical := by
  refine ⟨fun hEmpty => hs.1 (String.append_eq_empty_iff.mp hEmpty).1, fun v hv hStarts => ?_⟩
  rw [String.toList_append] at hv
  rcases List.suffix_or_suffix_of_suffix hv (List.suffix_append _ _) with hRight | ⟨left, rfl⟩
  · exact hu.2 v hRight hStarts
  · by_cases hne : left = []
    · subst hne
      exact hu.2 _ List.suffix_rfl hStarts
    · -- What starts in the first piece would have to end in it.
      obtain ⟨before, hText⟩ := hv
      rw [← List.append_assoc] at hText
      have hLeft : left <:+ s.toList := ⟨before, List.append_cancel_right hText⟩
      exact hs.2 left hLeft (h.startsDirective hLeft hne hStarts)

theorem Canonical.join {position : Nat} {as bs : List Token} {s u : String}
    {start length start' length' : Nat}
    (ha : Canonical position (as ++ [⟨.literal s, start, length⟩]))
    (hb : Canonical (start + length) (⟨.literal u, start', length'⟩ :: bs))
    (hSeam : Seam s.toList u.toList) :
    Canonical position (as ++ ⟨.literal (s ++ u), start, length + length'⟩ :: bs) := by
  induction as generalizing position with
  | nil =>
    obtain ⟨rfl, hLength, hKind, -, -⟩ := canonical_cons.mp ha
    obtain ⟨rfl, hLength', hKind', hHead, hTail⟩ := canonical_cons.mp hb
    refine canonical_cons.mpr ⟨rfl, ?_, hSeam.isCanonical hKind hKind', fun v hv hBoth => ?_, ?_⟩
    · rw [Kind.directiveText, String.utf8ByteSize_append]
      exact congrArg₂ (· + ·) hLength hLength'
    · exact hHead v hv ⟨⟨u, rfl⟩, hBoth.2⟩
    · rw [Token.stop] at hTail ⊢
      rwa [← Nat.add_assoc]
  | cons t ts ih =>
    obtain ⟨rfl, hLength, hKind, hHead, hTail⟩ := canonical_cons.mp ha
    refine canonical_cons.mpr ⟨rfl, hLength, hKind, fun v hv hBoth => ?_, ih hTail⟩
    cases ts with
    | nil => exact hHead _ rfl ⟨hBoth.1, s, rfl⟩
    | cons w ws => exact hHead v hv hBoth

/-- The first list followed by the second, with literal text at the seam joined or as it is. -/
inductive Glued : List Token → List Token → List Token → Prop
  | apart (as bs : List Token) : Glued as bs (as ++ bs)
  | joined (as bs : List Token) (s u : String) (start length length' : Nat) :
    Glued (as ++ [⟨.literal s, start, length⟩]) (⟨.literal u, start + length, length'⟩ :: bs)
      (as ++ ⟨.literal (s ++ u), start, length + length'⟩ :: bs)

theorem Canonical.ne_nil_of_literal {position : Nat} {ts : List Token} (h : Canonical position ts)
    {s : String} {start length : Nat} (hMem : ⟨.literal s, start, length⟩ ∈ ts) :
    s.toList ≠ [] := by
  have hNotEmpty : s ≠ "" := (h.kinds _ hMem).1
  simpa using hNotEmpty

/-- The tokens of two texts are the tokens of the one and, further on, those of the other. -/
theorem scan_append {a b : String} (h : Seam a.toList b.toList) :
    Glued (scan a) ((scan b).map (shift a.utf8ByteSize)) (scan (a ++ b)) := by
  have ha := canonical_scan a
  have hb := (canonical_scan b).shift a.utf8ByteSize
  have hTextA := toDirectives_scan a
  have hTextB : toDirectives ((scan b).map (shift a.utf8ByteSize)) = b := by
    rw [toDirectives_shift, toDirectives_scan]
  have hStop := ha.contiguous.stop_getLast
  rw [hTextA] at hStop
  generalize scan a = as at ha hTextA hStop ⊢
  generalize (scan b).map (shift a.utf8ByteSize) = bs at hb hTextB ⊢
  by_cases hSep : ∀ t ∈ as.getLast?, ∀ u ∈ bs.head?, Separate t u
  · have hAll := ha.append_of_separate (by rwa [hTextA]) hSep
    rw [← hTextA, ← hTextB, ← toDirectives_append, scan_toDirectives hAll]
    exact .apart as bs
  · simp only [not_forall] at hSep
    obtain ⟨⟨kind, start, length⟩, hLast, ⟨kind', start', length'⟩, hHead, hBoth⟩ := hSep
    obtain ⟨⟨s, rfl⟩, ⟨u, rfl⟩⟩ := not_not.mp hBoth
    obtain ⟨as, rfl⟩ := List.getLast?_eq_some_iff.mp hLast
    obtain ⟨bs, rfl⟩ := List.head?_eq_some_iff.mp hHead
    have hPlace : start + length = 0 + a.utf8ByteSize := by
      rw [← hStop, List.getLast?_concat]
      rfl
    rw [← hPlace] at hb
    obtain rfl : start' = start + length := (canonical_cons.mp hb).1
    have hSeam : Seam s.toList u.toList := by
      have hs := ha.ne_nil_of_literal (List.mem_append_right as List.mem_cons_self)
      have hu := hb.ne_nil_of_literal List.mem_cons_self
      rw [← hTextA, ← hTextB, toDirectives_append, toDirectives_cons, toDirectives_cons,
        toDirectives_nil, String.append_empty, String.toList_append, String.toList_append] at h
      rcases h with hClose | hOpen
      · exact .inl ((List.getLast?_append_of_ne_nil _ hs).symm.trans hClose)
      · exact .inr ((List.head?_append_of_ne_nil _ hu).symm.trans hOpen)
    have hText : toDirectives (as ++ ⟨.literal (s ++ u), start, length + length'⟩ :: bs) =
        a ++ b := by
      rw [← hTextA, ← hTextB]
      simp [Kind.directiveText, String.append_assoc]
    rw [← hText, scan_toDirectives (ha.join hb hSeam)]
    exact .joined as bs s u start length length'

end Token

/-! ### Balancing and folding across a seam -/

namespace Nesting

theorem reach_reach (n : Nesting) (start length length' : Nat) :
    (n.reach (start + length)).reach (start + length + length') =
      n.reach (start + (length + length')) := by
  simp only [reach, Nesting.mk.injEq, true_and]
  omega

theorem pushAll_literal (n : Nesting) (s : String) (start length : Nat) (ts : List Token) :
    n.pushAll (⟨.literal s, start, length⟩ :: ts) =
      (⟨⟨.literal s, start, length⟩, none⟩ :: ((n.reach (start + length)).pushAll ts).1,
        ((n.reach (start + length)).pushAll ts).2) := rfl

end Nesting

namespace Token

open Nesting

/-- Literal text in two pieces is repaired, folded and closed like the same text in one. -/
theorem Glued.compile {as bs ts : List Token} (h : Glued as bs ts) :
    Node.ofTokens (Balanced.ofTokens ts).tokens =
        Node.ofTokens (Balanced.ofTokens (as ++ bs)).tokens ∧
      (Balanced.ofTokens ts).diagnostics = (Balanced.ofTokens (as ++ bs)).diagnostics := by
  cases h with
  | apart => exact ⟨rfl, rfl⟩
  | joined as bs s u start length length' =>
    rw [List.append_assoc, List.singleton_append, Nesting.ofTokens_eq, Nesting.ofTokens_eq, after,
      after, pushAll_append, pushAll_append, pushAll_literal, pushAll_literal, pushAll_literal,
      reach_reach]
    refine ⟨?_, ?_⟩
    · simp only [Balanced.ofRepairs, Node.ofTokens, List.map_append, List.map_cons,
        List.foldl_append, List.foldl_cons]
      rw [Node.Builder.push_push_literal]
    · simp [Balanced.ofRepairs]

end Token

namespace Nesting

/-- The ends of tokens that follow one another grow up to the end of their text. -/
theorem foldl_max_stop {position : Nat} {ts : List Token} (h : Contiguous position ts) :
    (ts.map Token.stop).foldl max position = position + (toDirectives ts).utf8ByteSize := by
  induction ts generalizing position with
  | nil => simp
  | cons t ts ih =>
    obtain ⟨rfl, hLength, hSpans⟩ := h
    have hGrows : t.start ≤ t.stop := Nat.le_add_right _ _
    rw [List.map_cons, List.foldl_cons, Nat.max_eq_right hGrows, ih hSpans, toDirectives_cons,
      String.utf8ByteSize_append, ← hLength, Token.stop, Nat.add_assoc]

theorem lastStop_scan (raw : String) : Matching.lastStop (scan raw) = raw.utf8ByteSize := by
  have hEnd := foldl_max_stop (canonical_scan raw).contiguous
  rwa [toDirectives_scan, Nat.zero_add] at hEnd

/-- A text that leaves nothing open leaves the state that the scanner began in, moved to its end. -/
theorem after_scan {raw : String} (h : (after (scan raw)).closeAll = []) :
    after (scan raw) = Nesting.empty.shift raw.utf8ByteSize := by
  have hStop : (after (scan raw)).stop = raw.utf8ByteSize :=
    (pushAll_stop .empty _).trans (lastStop_scan raw)
  have hBounded := (agrees_after (scan raw)).bounded
  have hOpened : (after (scan raw)).opened = [] := List.map_eq_nil_iff.mp h
  have hDepth : (after (scan raw)).depth = 0 := by rw [depth, hOpened, List.length_nil]
  have hDemoted : (after (scan raw)).demoted = 0 := by
    by_contra hne
    have hFull := hBounded.depth_eq hne
    rw [hDepth] at hFull
    contradiction
  generalize after (scan raw) = n at hOpened hDemoted hStop
  obtain ⟨opened, demoted, stop⟩ := n
  subst hOpened hDemoted hStop
  simp [empty, shift]

end Nesting

namespace Balanced

instance : Append Balanced :=
  ⟨fun a b => ⟨a.tokens ++ b.tokens, a.diagnostics ++ b.diagnostics⟩⟩

def shift (k : Nat) (b : Balanced) : Balanced :=
  ⟨b.tokens.map (Token.shift k), b.diagnostics.map (Diagnostic.shift k)⟩

theorem ofRepairs_append (rs rs' : List Repair) :
    ofRepairs (rs ++ rs') = ofRepairs rs ++ ofRepairs rs' := by
  rw [ofRepairs, List.map_append, List.filterMap_append]
  rfl

theorem ofRepairs_shift (k : Nat) (rs : List Repair) :
    ofRepairs (rs.map (Repair.shift k)) = (ofRepairs rs).shift k := by
  rw [ofRepairs, ofRepairs, shift, List.map_map, List.map_map, List.filterMap_map,
    List.map_filterMap]
  rfl

/-- Two streams one after the other are balanced each by itself if the first leaves nothing open. -/
theorem ofTokens_append {as : List Token} {k : Nat}
    (h : Nesting.after as = Nesting.empty.shift k) (bs : List Token) :
    ofTokens (as ++ bs.map (Token.shift k)) = ofTokens as ++ (ofTokens bs).shift k := by
  have hBoth := Nesting.pushAll_append .empty as (bs.map (Token.shift k))
  rw [show (Nesting.empty.pushAll as).2 = _ from h, Nesting.pushAll_shift] at hBoth
  have hNone : (Nesting.after as).closeAll = [] := by
    rw [h]
    rfl
  rw [Nesting.ofTokens_eq, Nesting.ofTokens_eq, Nesting.ofTokens_eq, hNone, List.append_nil,
    Nesting.after, hBoth, Nesting.closeAll_shift, List.append_assoc, ← List.map_append,
    ofRepairs_append, ofRepairs_shift]
  rfl

end Balanced

/-! ### Trees across a seam -/

namespace Node

/-- The nodes of two balanced streams one after the other are those of the first and then, moved,
those of the second; the text nodes at the seam are one. -/
theorem children_ofTokens_append {limit limit' : Nat} {as bs : List Token}
    (ha : Balanced.IsNested limit [] as) (hb : Balanced.IsNested limit' [] bs) (k : Nat) :
    (ofTokens (as ++ bs.map (Token.shift k))).children =
      ((shiftAll k (ofTokens bs).children.reverse).foldr place
        (ofTokens as).children.reverse).reverse := by
  have hFrames : (as.foldl Builder.push .empty).frames = [] := Builder.frames_foldl ha
  have hFrames' : (bs.foldl Builder.push .empty).frames = [] := Builder.frames_foldl hb
  have hAfter : as.foldl Builder.push .empty =
      (Builder.empty.shift k).onto (as.foldl Builder.push .empty).top := by
    generalize as.foldl Builder.push .empty = b at hFrames
    obtain ⟨frames, top⟩ := b
    obtain rfl : frames = [] := hFrames
    rfl
  rw [ofTokens_eq_root ha, ofTokens_eq_root hb, ofTokens, List.foldl_append, hAfter,
    (Builder.around_onto _).foldl (hb.shift k), Builder.foldl_push_shift, Builder.finish]
  simp only [Builder.onto, Builder.shift, hFrames', List.map_nil, Builder.closeAll, root, children,
    List.reverse_reverse]
  rfl

/-- A placed node is emitted last, be it a node of its own or the end of a text node. -/
theorem emitAll_reverse_place (s : Scope) (depth : Nat) (n : Node) (ns : List Node) :
    emitAll s depth (place n ns).reverse = emitAll s depth ns.reverse ++ n.emit s depth := by
  have hOwn : emitAll s depth (n :: ns).reverse = emitAll s depth ns.reverse ++ n.emit s depth := by
    rw [List.reverse_cons, emitAll_append, emitAll_singleton]
  rcases place_cases n ns with ⟨hPlaced, -⟩ | ⟨u, before, rest, rfl, rfl⟩
  · rw [hPlaced, hOwn]
  · show emitAll s depth (Node.text (before ++ u) :: rest).reverse = _
    rw [List.reverse_cons, List.reverse_cons, emitAll_append, emitAll_append, emitAll_singleton,
      emitAll_singleton, Outcome.append_assoc, emit, emit, emit]
    rfl

theorem emitAll_reverse_foldr_place (s : Scope) (depth : Nat) (ns before : List Node) :
    emitAll s depth (ns.foldr place before).reverse =
      emitAll s depth before.reverse ++ emitAll s depth ns.reverse := by
  induction ns with
  | nil => rw [List.foldr_nil, List.reverse_nil, emitAll, Outcome.append_nothing]
  | cons n ns ih =>
    rw [List.foldr_cons, emitAll_reverse_place, ih, List.reverse_cons, emitAll_append,
      emitAll_singleton, Outcome.append_assoc]

end Node

/-! ### Documents across a seam -/

namespace Template

open Nesting

section Seam

variable {a b : String} (hSeam : Seam a.toList b.toList) (hClosed : (after (scan a)).closeAll = [])
include hSeam hClosed

theorem diagnostics_compile_append :
    (compile (a ++ b)).diagnostics =
      (compile a).diagnostics ++ (compile b).diagnostics.map (.shift a.utf8ByteSize) := by
  obtain ⟨-, hDiagnostics⟩ := (scan_append hSeam).compile
  rw [Balanced.ofTokens_append (after_scan hClosed)] at hDiagnostics
  exact hDiagnostics

/-- The outcome of the tree is the outcome of the one tree and then that of the other, moved. -/
theorem render_root_append (context : Value) :
    (compile (a ++ b)).root.render context =
      (compile a).root.render context ++
        ((compile b).root.render context).shift a.utf8ByteSize := by
  obtain ⟨hRoot, -⟩ := (scan_append hSeam).compile
  rw [Balanced.ofTokens_append (after_scan hClosed)] at hRoot
  have hChildren := Node.children_ofTokens_append (Balanced.isNested_ofTokens (scan a))
    (Balanced.isNested_ofTokens (scan b)) a.utf8ByteSize
  rw [Node.render_eq_emitAll, Node.render_eq_emitAll, Node.render_eq_emitAll, ← Node.emitAll_shift,
    show (compile (a ++ b)).root = _ from hRoot]
  refine (congrArg _ hChildren).trans ?_
  rw [Node.emitAll_reverse_foldr_place, Node.reverse_shiftAll, List.reverse_reverse,
    List.reverse_reverse]
  rfl

end Seam

/-- The document of two texts, one after the other, is the document of the first followed by that
of the second. -/
theorem render_append (a b : String) (context : Value)
    (hSeam : a.toList.getLast? = some '}' ∨ b.toList.head? = some '{')
    (hClosed : (after (scan a)).closeAll = []) :
    ((compile (a ++ b)).render context).output =
        ((compile a).render context).output ++ ((compile b).render context).output ∧
      (compile (a ++ b)).diagnostics =
        (compile a).diagnostics ++ (compile b).diagnostics.map (.shift a.utf8ByteSize) ∧
      ((compile (a ++ b)).render context).missingVariables =
        ((compile a).render context).missingVariables ++
          ((compile b).render context).missingVariables.map (.shift a.utf8ByteSize) := by
  have hRender := render_root_append hSeam hClosed context
  refine ⟨congrArg Outcome.output hRender, diagnostics_compile_append hSeam hClosed, ?_⟩
  rw [missingVariables_render, missingVariables_render, missingVariables_render, hRender,
    ← Outcome.missingVariables_shift]
  exact List.filter_append _ _

/-- A close without an open before the seam, literal text on both sides of it, and a section left
open after it. -/
theorem render_append_literal_seam :
    let a := "\x7b#end\x7d\x7b#x\x7dé\x7bq\x7d\x7b#end\x7d\x7d"
    let b := "z\x7br\x7d\x7b#s\x7d"
    let context := Value.mapping (.ofList [("x", .bool true)])
    a.toList.getLast? = some '}' ∧ (after (scan a)).closeAll = [] ∧
      ((compile (a ++ b)).render context).output = "\x7b#end\x7dé\x7dz" ∧
      (compile (a ++ b)).diagnostics = [.unbalancedTag "\x7b#end\x7d" 0, .unbalancedTag "s" 26] ∧
      ((compile (a ++ b)).render context).missingVariables =
        [.missingVariable "q" 12, .missingVariable "r" 23] := by
  intro a b context
  have hScanA : scan a = [⟨.closing none, 0, 6⟩, ⟨.opening "x", 6, 4⟩, ⟨.literal "é", 10, 2⟩,
      ⟨.var "q", 12, 3⟩, ⟨.closing none, 15, 6⟩, ⟨.literal "\x7d", 21, 1⟩] := by
    refine Eq.trans (congrArg scan ?_) (scan_toDirectives ?_)
    · decide
    · decide
  have hScanB : scan b = [⟨.literal "z", 0, 1⟩, ⟨.var "r", 1, 3⟩, ⟨.opening "s", 4, 4⟩] := by
    refine Eq.trans (congrArg scan ?_) (scan_toDirectives ?_)
    · decide
    · decide
  have hClosed : (after (scan a)).closeAll = [] := by
    rw [hScanA]
    rfl
  have hLast : a.toList.getLast? = some '}' := by
    decide
  obtain ⟨hOutput, hDiagnostics, hMissing⟩ := render_append a b context (.inl hLast) hClosed
  refine ⟨hLast, hClosed, hOutput.trans ?_, hDiagnostics.trans ?_, hMissing.trans ?_⟩
  · simp only [render, compile, hScanA, hScanB]
    decide
  · simp only [compile, hScanA, hScanB]
    decide
  · simp only [render, compile, hScanA, hScanB]
    decide

end Template
end DocTemplate
