import DocTemplate.Template.Compiled
import DocTemplate.Proofs.Template.Matching
import DocTemplate.Proofs.Template.Scan
import Mathlib.Logic.Function.Iterate

/-! Templates with their nesting repaired. The repaired text of a template is its text and a closing
tag for each section that is left open. If every open without a close is within the depth limit, the
repaired text compiles to the same tree, reports all repairs but those closes, and needs no further
repair. -/

namespace DocTemplate

open Token

/-! ### Closing tags -/

namespace Token

/-- Closes one after another from byte `position` on. -/
def endTags (position : Nat) : Nat → List Token
  | 0 => []
  | count + 1 =>
    ⟨.closing none, position, closeTag.utf8ByteSize⟩ ::
      endTags (position + closeTag.utf8ByteSize) count

theorem head_endTags {position count : Nat} :
    ∀ t ∈ (endTags position count).head?, ¬t.kind.IsLiteral := by
  cases count with
  | zero => simp [endTags]
  | succ count => simp [endTags, Kind.IsLiteral]

theorem canonical_endTags (position count : Nat) : Canonical position (endTags position count) := by
  induction count generalizing position with
  | zero => exact Canonical.nil position
  | succ count ih =>
    have hClose : (Kind.closing none).IsDirective := rfl
    exact hClose.canonical_cons rfl (ih _)

/-- Closing tags after a text are scanned apart from it, whatever directive it ends within. -/
theorem scan_append_endTags (raw : String) (count : Nat) :
    scan (toDirectives (scan raw ++ endTags raw.utf8ByteSize count)) =
      scan raw ++ endTags raw.utf8ByteSize count := by
  refine scan_toDirectives ((canonical_scan raw).append ?_ head_endTags)
  rw [toDirectives_scan, Nat.zero_add]
  exact canonical_endTags _ _

end Token

/-! ### The text and the repairs of a balanced stream -/

namespace Nesting

theorem Rule.directiveText {n : Nesting} {t : Token} {result : Repair × Nesting}
    (h : Rule n t result) : result.1.token.kind.directiveText = t.kind.directiveText := by
  cases h <;> rfl

theorem Rule.kind_diagnostic {n : Nesting} {t : Token} {result : Repair × Nesting}
    (h : Rule n t result) : ∀ d ∈ result.1.diagnostic, d.kind = .unbalancedTag := by
  cases h <;> simp [Diagnostic.unbalancedTag]

/-- Repairs keep the text. -/
theorem toDirectives_pushAll (n : Nesting) (ts : List Token) :
    toDirectives ((n.pushAll ts).1.map Repair.token) = toDirectives ts := by
  induction ts generalizing n with
  | nil => rfl
  | cons t ts ih =>
    simp only [pushAll_cons, List.map_cons, toDirectives_cons]
    rw [ih, (rule_push n t).directiveText]

theorem toDirectives_closes (stop position : Nat) (opened : List Opened) :
    toDirectives ((opened.map (Opened.close stop)).map Repair.token) =
      toDirectives (endTags position opened.length) := by
  induction opened generalizing position with
  | nil => rfl
  | cons o opened ih =>
    simp only [List.map_cons, List.length_cons, endTags, toDirectives_cons]
    rw [ih]
    rfl

theorem kind_pushAll (n : Nesting) (ts : List Token) :
    ∀ d ∈ (n.pushAll ts).1.filterMap Repair.diagnostic, d.kind = .unbalancedTag := by
  induction ts generalizing n with
  | nil => simp
  | cons t ts ih =>
    intro d hd
    obtain ⟨r, hr, hDiagnostic⟩ := List.mem_filterMap.mp hd
    rcases List.mem_cons.mp hr with rfl | hTail
    · exact (rule_push n t).kind_diagnostic d hDiagnostic
    · exact ih _ d (List.mem_filterMap.mpr ⟨r, hTail, hDiagnostic⟩)

theorem filterMap_closes (stop : Nat) (opened : List Opened) :
    (opened.map (Opened.close stop)).filterMap Repair.diagnostic =
      opened.map fun o => .unbalancedTag o.name o.position := by
  rw [List.filterMap_map, ← List.filterMap_eq_map]
  rfl

theorem tokens_ofTokens (ts : List Token) :
    (Balanced.ofTokens ts).tokens =
      (Nesting.empty.pushAll ts).1.map Repair.token ++ (after ts).closeAll.map Repair.token := by
  rw [ofTokens_eq, Balanced.ofRepairs, List.map_append]

theorem diagnostics_ofTokens (ts : List Token) :
    (Balanced.ofTokens ts).diagnostics =
      (Nesting.empty.pushAll ts).1.filterMap Repair.diagnostic ++
        (after ts).opened.map fun o => .unbalancedTag o.name o.position := by
  rw [ofTokens_eq, Balanced.ofRepairs, List.filterMap_append, closeAll, filterMap_closes]

/-- Closes for all open sections close them, without a report. -/
theorem pushAll_endTags (stop position : Nat) (opened : List Opened) :
    let (repairs, n) := (⟨opened, 0, stop⟩ : Nesting).pushAll (endTags position opened.length)
    repairs.length = opened.length ∧ (∀ r ∈ repairs, ∃ name, r.token.kind = .closing name) ∧
      repairs.filterMap Repair.diagnostic = [] ∧ n.opened = [] := by
  induction opened generalizing stop position with
  | nil => exact ⟨rfl, by simp, rfl, rfl⟩
  | cons o opened ih =>
    obtain ⟨hLength, hKinds, hSilent, hClosed⟩ := ih
      (max stop (position + closeTag.utf8ByteSize)) (position + closeTag.utf8ByteSize)
    refine ⟨congrArg Nat.succ hLength, ?_, hSilent, hClosed⟩
    intro r hr
    rcases List.mem_cons.mp hr with rfl | hTail
    · exact ⟨some o.name, rfl⟩
    · exact hKinds r hTail

/-- No open beyond the limit waits for a close if all unmatched opens are within it. -/
theorem Agrees.demoted_eq_zero {n : Nesting} {stack : List Bracket} (h : Agrees n stack)
    (hKept : ∀ b ∈ stack, b.isKept = true) :
    n.demoted = 0 ∧ n.opened = stack.map Bracket.opened := by
  have hDrop : stack.drop (stack.length - maxSectionDepth) = stack := by
    rw [← filter_isKept h.around]
    exact List.filter_eq_self.mpr hKept
  have hLength := congrArg List.length hDrop
  rw [List.length_drop] at hLength
  refine ⟨?_, by rw [h.opened, hDrop]⟩
  rw [h.demoted]
  have hLimit : 0 < maxSectionDepth := by decide
  omega

end Nesting

/-! ### The tree of a balanced stream -/

namespace Node

theorem Builder.foldl_push_closings (b : Builder) {ts : List Token}
    (h : ∀ t ∈ ts, ∃ name, t.kind = .closing name) :
    ts.foldl Builder.push b = Builder.close^[ts.length] b := by
  induction ts generalizing b with
  | nil => rfl
  | cons t ts ih =>
    obtain ⟨name, hKind⟩ := h t List.mem_cons_self
    have hClose : b.push t = b.close := by rw [Builder.push, hKind]
    rw [List.foldl_cons, hClose, ih _ fun u hu => h u (List.mem_cons_of_mem t hu)]
    rfl

/-- Neither the spans nor the names of the last closes matter to the tree. -/
theorem ofTokens_append_closings (as : List Token) {bs cs : List Token}
    (hb : ∀ t ∈ bs, ∃ name, t.kind = .closing name)
    (hc : ∀ t ∈ cs, ∃ name, t.kind = .closing name) (hLength : bs.length = cs.length) :
    ofTokens (as ++ bs) = ofTokens (as ++ cs) := by
  rw [ofTokens, ofTokens, List.foldl_append, List.foldl_append, Builder.foldl_push_closings _ hb,
    Builder.foldl_push_closings _ hc, hLength]

end Node

/-! ### Compiling the repaired text -/

namespace Template

open Matching Nesting

/-- The text of a template with its nesting repaired. -/
def repaired (raw : String) : String := toDirectives (Balanced.ofTokens (scan raw)).tokens

theorem repaired_eq (raw : String) :
    repaired raw =
      toDirectives (scan raw ++ endTags raw.utf8ByteSize (after (scan raw)).depth) := by
  rw [repaired, tokens_ofTokens, toDirectives_append, toDirectives_append, toDirectives_pushAll]
  exact congrArg _ (toDirectives_closes _ _ _)

theorem scan_repaired (raw : String) :
    scan (repaired raw) = scan raw ++ endTags raw.utf8ByteSize (after (scan raw)).depth := by
  rw [repaired_eq, scan_append_endTags]

/-- A text that leaves no section open needs no repair. -/
theorem repaired_eq_self {raw : String} (h : (after (scan raw)).opened = []) :
    repaired raw = raw := by
  rw [repaired_eq, Nesting.depth, h, List.length_nil, endTags, List.append_nil, toDirectives_scan]

/-- No repair is about a variable. -/
theorem kind_diagnostics_compile (raw : String) :
    ∀ d ∈ (compile raw).diagnostics, d.kind = .unbalancedTag := by
  intro d hd
  rw [compile, diagnostics_ofTokens] at hd
  rcases List.mem_append.mp hd with hPushed | hClosed
  · exact kind_pushAll _ _ d hPushed
  · obtain ⟨o, -, rfl⟩ := List.mem_map.mp hClosed
    rfl

/-- The repairs come before the diagnostics of the data, and none of them is about a variable. -/
theorem missingVariables_render (raw : String) (context : Value) :
    ((compile raw).render context).missingVariables =
      ((compile raw).root.render context).missingVariables := by
  have hNone : (compile raw).diagnostics.filter (fun d => d.kind == .missingVariable) = [] := by
    refine List.filter_eq_nil_iff.mpr fun d hd => ?_
    rw [kind_diagnostics_compile raw d hd]
    decide
  rw [Outcome.missingVariables, render, List.filter_append, hNone]
  rfl

section Kept

variable {raw : String} (h : ∀ b ∈ unmatched (scan raw), b.isKept = true)
include h

/-- The repaired text scans as the text and a closing tag for each section left open, and those tags
are the closes that the text lacked. -/
theorem pushAll_scan_repaired :
    ∃ ends : List Repair,
      (Nesting.empty.pushAll (scan (repaired raw))).1 =
          (Nesting.empty.pushAll (scan raw)).1 ++ ends ∧
        ends.length = (after (scan raw)).depth ∧
        (∀ r ∈ ends, ∃ name, r.token.kind = .closing name) ∧
        ends.filterMap Repair.diagnostic = [] ∧ (after (scan (repaired raw))).opened = [] := by
  obtain ⟨hDemoted, -⟩ := (agrees_after (scan raw)).demoted_eq_zero h
  -- The closing tags meet a nesting without waiting opens, so each of them closes a section.
  have hAfter : after (scan raw) = ⟨(after (scan raw)).opened, 0, (after (scan raw)).stop⟩ := by
    rw [← hDemoted]
  obtain ⟨hLength, hKinds, hSilent, hClosed⟩ := pushAll_endTags (after (scan raw)).stop
    raw.utf8ByteSize (after (scan raw)).opened
  rw [← hAfter] at hLength hKinds hSilent hClosed
  have hRun := pushAll_append .empty (scan raw)
    (endTags raw.utf8ByteSize (after (scan raw)).depth)
  rw [← scan_repaired] at hRun
  refine ⟨_, congrArg Prod.fst hRun, hLength, hKinds, hSilent, ?_⟩
  rw [after, hRun]
  exact hClosed

theorem root_compile_repaired : (compile (repaired raw)).root = (compile raw).root := by
  obtain ⟨ends, hPushed, hLength, hKinds, -, hClosed⟩ := pushAll_scan_repaired h
  rw [compile, compile, tokens_ofTokens, tokens_ofTokens, hPushed, closeAll, hClosed, List.map_nil,
    List.map_nil, List.append_nil, List.map_append]
  refine Node.ofTokens_append_closings _ ?_ ?_ ?_
  · intro t ht
    obtain ⟨r, hr, rfl⟩ := List.mem_map.mp ht
    exact hKinds r hr
  · intro t ht
    obtain ⟨r, hr, rfl⟩ := List.mem_map.mp ht
    obtain ⟨o, -, rfl⟩ := List.mem_map.mp hr
    exact ⟨some o.name, rfl⟩
  · rw [List.length_map, List.length_map, hLength, closeAll, List.length_map, Nesting.depth]

theorem diagnostics_compile_repaired :
    (compile raw).diagnostics = (compile (repaired raw)).diagnostics ++
      (unmatched (scan raw)).map (fun b => .unbalancedTag b.name b.position) := by
  obtain ⟨ends, hPushed, -, -, hSilent, hClosed⟩ := pushAll_scan_repaired h
  obtain ⟨-, hOpened⟩ := (agrees_after (scan raw)).demoted_eq_zero h
  rw [compile, compile, diagnostics_ofTokens, diagnostics_ofTokens, hPushed, hClosed,
    List.filterMap_append, hSilent, List.map_nil, List.append_nil, List.append_nil, hOpened,
    List.map_map]
  rfl

end Kept

/-- Repairing a text keeps what it means, provided that no open beyond the depth limit is left
without a close. -/
theorem compile_repaired (raw : String)
    (h : ∀ b ∈ unmatched (scan raw), b.isKept = true) :
    (compile (repaired raw)).root = (compile raw).root ∧
      (∀ context, ((compile (repaired raw)).render context).output =
          ((compile raw).render context).output ∧
        ((compile (repaired raw)).render context).missingVariables =
          ((compile raw).render context).missingVariables) ∧
      (compile raw).diagnostics = (compile (repaired raw)).diagnostics ++
        (unmatched (scan raw)).map (fun b => .unbalancedTag b.name b.position) ∧
      repaired (repaired raw) = repaired raw := by
  have hRoot := root_compile_repaired h
  obtain ⟨-, -, -, -, -, hClosed⟩ := pushAll_scan_repaired h
  refine ⟨hRoot, fun context => ⟨?_, ?_⟩, diagnostics_compile_repaired h, repaired_eq_self hClosed⟩
  · show ((compile (repaired raw)).root.render context).output = _
    rw [hRoot]
    rfl
  · rw [missingVariables_render, missingVariables_render, hRoot]

/-- A close without an open, two sections left open, and part of a closing tag at the end. -/
theorem compile_repaired_partial_tag :
    let raw := "\x7b#end\x7d\x7b#a\x7dé\x7bx\x7d\x7b#b\x7d\x7b#en"
    let fixed := raw ++ "\x7b#end\x7d\x7b#end\x7d"
    (∀ b ∈ unmatched (scan raw), b.isKept = true) ∧ repaired raw = fixed ∧
      repaired fixed = fixed ∧ (compile fixed).root = (compile raw).root ∧
      (compile raw).diagnostics =
        (compile fixed).diagnostics ++ [.unbalancedTag "b" 15, .unbalancedTag "a" 6] := by
  intro raw fixed
  have hScan : scan raw =
      [⟨.closing none, 0, 6⟩, ⟨.opening "a", 6, 4⟩, ⟨.literal "é", 10, 2⟩, ⟨.var "x", 12, 3⟩,
        ⟨.opening "b", 15, 4⟩, ⟨.literal "\x7b#en", 19, 4⟩] := by
    refine Eq.trans (congrArg scan ?_) (scan_toDirectives ?_)
    · decide
    · decide
  have hUnmatched : unmatched (scan raw) = [⟨"b", 15, 1⟩, ⟨"a", 6, 0⟩] := by
    rw [hScan]
    rfl
  have hRepaired : repaired raw = fixed := by
    rw [repaired, hScan]
    decide
  have hKept : ∀ b ∈ unmatched (scan raw), b.isKept = true := by
    rw [hUnmatched]
    decide
  obtain ⟨hRoot, -, hDiagnostics, hFixed⟩ := compile_repaired raw hKept
  rw [hRepaired] at hRoot hDiagnostics hFixed
  rw [hUnmatched] at hDiagnostics
  exact ⟨hKept, hRepaired, hFixed, hRoot, hDiagnostics⟩

end Template
end DocTemplate
