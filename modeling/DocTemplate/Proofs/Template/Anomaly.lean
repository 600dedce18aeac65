import DocTemplate.Files.TemplateFile
import DocTemplate.Proofs.Rendering.Visit
import DocTemplate.Proofs.Template.Depth
import DocTemplate.Proofs.Template.Place

/-! What is wrong with the nesting of a text: a close without an open, an open too deep, and an open
without a close. Each repair that balancing reports has one of these causes at the token where it
stands. The wording of a diagnostic, though made from its path alone, names the cause, because no
section has a name that reads like a tag. -/

namespace DocTemplate

open Token Matching

/-- The causes of repairs. -/
inductive Anomaly where
  | orphan
  | tooDeep (name : String)
  | unclosed (name : String)
deriving DecidableEq, Repr

namespace Anomaly

/-- The anomalies of a token stream, each with the byte where its token starts. -/
inductive At (ts : List Token) : Nat → Anomaly → Prop
  | orphan {before after : List Token} {name : Option String} {start length : Nat}
    (split : ts = before ++ ⟨.closing name, start, length⟩ :: after)
    (alone : unmatched before = []) : At ts start .orphan
  | tooDeep {before after : List Token} {name : String} {start length : Nat}
    (split : ts = before ++ ⟨.opening name, start, length⟩ :: after)
    (full : maxSectionDepth ≤ (unmatched before).length) : At ts start (.tooDeep name)
  | unclosed {b : Bracket} (waiting : b ∈ unmatched ts) (kept : b.isKept = true) :
    At ts b.position (.unclosed b.name)

def path : Anomaly → String
  | orphan => closeTag
  | tooDeep name => openTag name
  | unclosed name => name

/-- The tag that the diagnostic is about. -/
def tag : Anomaly → String
  | orphan => closeTag
  | tooDeep name | unclosed name => openTag name

def subject : Anomaly → String
  | orphan => "'" ++ closeTag ++ "'"
  | tooDeep name => "'" ++ openTag name ++ "'"
  | unclosed name => "section '" ++ name ++ "'"

def remark : Anomaly → String
  | orphan => " without an open section, kept as text"
  | tooDeep _ => " nested more than 256 sections deep, kept as text"
  | unclosed _ => " is never closed, closed at end of template"

def words (a : Anomaly) : String := a.subject ++ a.remark

/-- No remark is the end of another. -/
theorem remark_eq_of_suffix {a b : Anomaly} (h : a.remark.toList <:+ b.remark.toList) :
    a.remark = b.remark := by
  cases a <;> cases b <;> simp only [remark] at h ⊢ <;> exact absurd h (by decide)

/-- The words tell the anomalies apart: the remark tells the kind, and the subject has the name. -/
theorem words_injective : Function.Injective words := by
  intro a b h
  have hLetters := congrArg String.toList h
  rw [words, words, String.toList_append, String.toList_append] at hLetters
  have hEnd : a.remark.toList <:+ b.subject.toList ++ b.remark.toList :=
    ⟨_, hLetters⟩
  have hRemark : a.remark = b.remark := by
    rcases List.suffix_or_suffix_of_suffix hEnd (List.suffix_append _ _) with hIn | hIn
    · exact remark_eq_of_suffix hIn
    · exact (remark_eq_of_suffix hIn).symm
  rw [hRemark] at hLetters
  have hSubject := List.append_cancel_right hLetters
  cases a with
  | orphan =>
    cases b with
    | orphan => rfl
    | tooDeep | unclosed => exact absurd hRemark (by simp only [remark]; decide)
  | tooDeep name =>
    cases b with
    | orphan | unclosed => exact absurd hRemark (by simp only [remark]; decide)
    | tooDeep name' =>
      have hName : name.toList = name'.toList := by simpa [subject] using hSubject
      rw [String.toList_inj.mp hName]
  | unclosed name =>
    cases b with
    | orphan | tooDeep => exact absurd hRemark (by simp only [remark]; decide)
    | unclosed name' =>
      have hName : name.toList = name'.toList := by simpa [subject] using hSubject
      rw [String.toList_inj.mp hName]

/-! ### One anomaly at a place -/

/-- The anomaly of a token that comes when the opens in `stack` have no close, if it is to have
one. An open within the limit has one unless it is closed later. -/
def suspect? (stack : List Bracket) (t : Token) : Option Anomaly :=
  match t.kind with
  | .opening name =>
    some (if maxSectionDepth ≤ stack.length then .tooDeep name else .unclosed name)
  | .closing _ => some .orphan
  | .literal _ | .var _ => none

theorem unmatched_concat (ts : List Token) (t : Token) :
    unmatched (ts ++ [t]) = step (unmatched ts) t := by
  rw [unmatched, List.foldl_append]
  rfl

/-- An open without a close is a token of the stream. -/
theorem exists_split_of_mem_unmatched {ts : List Token} {b : Bracket} (h : b ∈ unmatched ts) :
    ∃ before length after, ts = before ++ ⟨.opening b.name, b.position, length⟩ :: after ∧
      (unmatched before).length = b.around := by
  induction ts using List.reverseRecOn with
  | nil => contradiction
  | append_singleton ts t ih =>
    have hEarlier : b ∈ unmatched ts → ∃ before length after,
        ts ++ [t] = before ++ ⟨.opening b.name, b.position, length⟩ :: after ∧
          (unmatched before).length = b.around := by
      intro hMem
      obtain ⟨before, length, after, hSplit, hAround⟩ := ih hMem
      exact ⟨before, length, after ++ [t], by rw [hSplit]; simp, hAround⟩
    obtain ⟨kind, start, length⟩ := t
    rw [unmatched_concat] at h
    cases kind with
    | literal | var => exact hEarlier h
    | closing name => exact hEarlier (List.mem_of_mem_tail h)
    | opening name =>
      rcases List.mem_cons.mp h with rfl | hMem
      · exact ⟨ts, length, [], rfl, rfl⟩
      · exact hEarlier hMem

theorem At.exists_split {ts : List Token} {position : Nat} {a : Anomaly} (h : a.At ts position) :
    ∃ before t after, ts = before ++ t :: after ∧ t.start = position ∧
      suspect? (unmatched before) t = some a := by
  cases h with
  | orphan split alone => exact ⟨_, _, _, split, rfl, rfl⟩
  | tooDeep split full => exact ⟨_, _, _, split, rfl, congrArg some (if_pos full)⟩
  | @unclosed b waiting kept =>
    obtain ⟨before, length, after, split, hAround⟩ := exists_split_of_mem_unmatched waiting
    refine ⟨_, _, _, split, rfl, congrArg some (if_neg ?_)⟩
    rw [hAround]
    exact Nat.not_le.mpr (of_decide_eq_true kept)

theorem At.unique {ts : List Token} (hStarts : (ts.map Token.start).Nodup) {position : Nat}
    {a b : Anomaly} (ha : a.At ts position) (hb : b.At ts position) : a = b := by
  obtain ⟨before, t, after, hSplit, hStart, hSuspect⟩ := ha.exists_split
  obtain ⟨before', t', after', hSplit', hStart', hSuspect'⟩ := hb.exists_split
  rw [hSplit] at hStarts
  obtain ⟨rfl, rfl⟩ := eq_of_start_eq hStarts (hSplit.symm.trans hSplit')
    (hStart.trans hStart'.symm)
  exact Option.some.inj (hSuspect.symm.trans hSuspect')

/-! ### Anomalies of a text -/

/-- What a section in an anomaly is called. -/
def name? : Anomaly → Option String
  | orphan => none
  | tooDeep name | unclosed name => some name

theorem tag_of_suspect? {stack : List Bracket} {t : Token} {a : Anomaly}
    (h : suspect? stack t = some a) : a.tag = t.kind.directiveText := by
  obtain ⟨kind, start, length⟩ := t
  cases kind with
  | literal | var => contradiction
  | closing name => rw [← Option.some.inj h]; rfl
  | opening name =>
    rw [← Option.some.inj h]
    split <;> rfl

theorem name?_of_suspect? {stack : List Bracket} {t : Token} {a : Anomaly} {name : String}
    (h : suspect? stack t = some a) (hName : a.name? = some name) : t.kind = .opening name := by
  obtain ⟨kind, start, length⟩ := t
  cases kind with
  | literal | var => contradiction
  | closing =>
    rw [← Option.some.inj h] at hName
    contradiction
  | opening =>
    rw [← Option.some.inj h] at hName
    split at hName <;> rw [← Option.some.inj hName]

theorem At.standsAt {raw : String} {position : Nat} {a : Anomaly} (h : a.At (scan raw) position) :
    Text.StandsAt raw position a.tag := by
  obtain ⟨before, t, after, hSplit, rfl, hSuspect⟩ := h.exists_split
  rw [tag_of_suspect? hSuspect]
  exact standsAt_scan (by rw [hSplit]; simp)

theorem At.isDirective {raw : String} {position : Nat} {a : Anomaly}
    (h : a.At (scan raw) position) {name : String} (hName : a.name? = some name) :
    (Kind.opening name).IsDirective := by
  obtain ⟨before, t, after, hSplit, -, hSuspect⟩ := h.exists_split
  have hKind := (canonical_scan raw).kinds t (by rw [hSplit]; simp)
  rwa [name?_of_suspect? hSuspect hName] at hKind

/-- Tags begin with these characters and names do not. -/
def tagStart : String := "\x7b#"

theorem tagStart_prefix_openTag (name : String) : tagStart.toList <+: (openTag name).toList := by
  rw [toList_openTag]
  exact ⟨name.toList ++ ['}'], rfl⟩

theorem tagStart_not_prefix_name {name : String} (h : (Kind.opening name).IsDirective) :
    ¬tagStart.toList <+: name.toList := by
  rintro ⟨rest, hRest⟩
  have hBrace := h.1.2 '{' (by rw [← hRest]; simp [tagStart])
  exact absurd (isNameChar_iff.mpr hBrace) (by decide)

/-- A path that begins like a tag is the tag at the place, and any other path is the name in it. -/
theorem At.standsAt_path {raw : String} {position : Nat} {a : Anomaly}
    (h : a.At (scan raw) position) :
    (tagStart.toList <+: a.path.toList → Text.StandsAt raw position a.path) ∧
      (¬tagStart.toList <+: a.path.toList → Text.StandsAt raw position (openTag a.path)) := by
  have hStands := h.standsAt
  cases ha : a with
  | orphan =>
    subst ha
    exact ⟨fun _ => hStands, fun hName => absurd (List.isPrefixOf_iff_prefix.mp (by decide)) hName⟩
  | tooDeep name =>
    subst ha
    exact ⟨fun _ => hStands, fun hName => absurd (tagStart_prefix_openTag name) hName⟩
  | unclosed name =>
    subst ha
    exact ⟨fun hTag => absurd hTag (tagStart_not_prefix_name (h.isDirective rfl)), fun _ => hStands⟩

def diagnostic (a : Anomaly) (position : Nat) : Diagnostic := .unbalancedTag a.path position

/-- The wording, which is chosen by the path, is that of the anomaly. -/
theorem At.explanation {raw : String} {position : Nat} {a : Anomaly}
    (h : a.At (scan raw) position) : (a.diagnostic position).explanation = a.words := by
  cases ha : a with
  | orphan => rfl
  | tooDeep name =>
    subst ha
    -- No section is called `end`, so the first of the three wordings is not taken.
    have hEnd : openTag name ≠ closeTag := by
      intro hEq
      have hChars := congrArg String.toList hEq
      rw [toList_openTag, toList_closeTag] at hChars
      simp only [List.cons.injEq, true_and, List.append_cancel_right_eq] at hChars
      exact (h.isDirective rfl).2 (String.toList_inj.mp hChars)
    show (if openTag name = closeTag then _ else if (openTag name).startsWith tagStart then _
      else _) = _
    rw [if_neg hEnd, if_pos (String.startsWith_string_iff.mpr (tagStart_prefix_openTag name))]
    simp only [words, subject, String.append_assoc]
    rfl
  | unclosed name =>
    subst ha
    have hName := tagStart_not_prefix_name (h.isDirective rfl)
    have hEnd : name ≠ closeTag := by
      rintro rfl
      exact hName (List.isPrefixOf_iff_prefix.mp (by decide))
    show (if name = closeTag then _ else if name.startsWith tagStart then _ else _) = _
    rw [if_neg hEnd, if_neg (mt String.startsWith_string_iff.mp hName)]
    simp only [words, subject, String.append_assoc]
    rfl

/-! ### Each repair has its anomaly -/

theorem exists_of_repair {ts before after : List Token} {t : Token} {d : Diagnostic}
    (split : ts = before ++ t :: after)
    (h : (repair (unmatched before) t).diagnostic = some d) :
    ∃ a : Anomaly, a.At ts d.position ∧ d = a.diagnostic d.position := by
  obtain ⟨kind, start, length⟩ := t
  cases kind with
  | literal | var => contradiction
  | opening name =>
    simp only [repair] at h
    split at h
    · next full =>
      obtain rfl := Option.some.inj h
      exact ⟨.tooDeep name, .tooDeep split full, rfl⟩
    · contradiction
  | closing name =>
    cases alone : unmatched before with
    | nil =>
      rw [alone] at h
      obtain rfl := Option.some.inj h
      exact ⟨.orphan, .orphan split alone, rfl⟩
    | cons b rest =>
      rw [alone] at h
      simp only [repair] at h
      split at h <;> contradiction

theorem exists_of_mem_diagnostics {ts : List Token} {d : Diagnostic}
    (h : d ∈ (Balanced.ofTokens ts).diagnostics) :
    ∃ a : Anomaly, a.At ts d.position ∧ d = a.diagnostic d.position := by
  rw [Nesting.ofTokens_eq, Nesting.closeAll_eq_endings, (Nesting.Agrees.empty.pushAll ts).1] at h
  obtain ⟨r, hr, hReport⟩ := List.mem_filterMap.mp h
  rcases List.mem_append.mp hr with hPushed | hEnding
  · obtain ⟨i, hi, rfl⟩ := List.mem_mapIdx.mp hPushed
    have hSplit : ts = ts.take i ++ ts[i] :: ts.drop (i + 1) := by
      rw [← List.drop_eq_getElem_cons hi, List.take_append_drop]
    exact exists_of_repair hSplit hReport
  · obtain ⟨b, hb, rfl⟩ := List.mem_map.mp hEnding
    obtain ⟨waiting, kept⟩ := List.mem_filter.mp hb
    obtain rfl := Option.some.inj hReport
    exact ⟨.unclosed b.name, .unclosed waiting kept, rfl⟩

end Anomaly

/-! ### Variables -/

namespace Template

open Anomaly

/-- The variables of a compiled template stand in its text where the tree has them. -/
theorem standsAt_compile (raw : String) :
    Node.EachAll (fun path position => Text.StandsAt raw position (varTag path.text))
      (fun _ _ _ => True) (compile raw).root.children := by
  refine eachAll_compile fun t ht => ?_
  obtain ⟨kind, start, length⟩ := t
  cases kind with
  | literal | opening | closing => trivial
  | var path =>
    show Text.StandsAt raw start (varTag (Path.parse path).text)
    rw [Path.text_parse]
    exact standsAt_scan ht

theorem standsAt_of_missingVariable {raw : String} {context : Value} {d : Diagnostic}
    (h : d ∈ ((compile raw).root.render context).diagnostics) :
    Text.StandsAt raw d.position (varTag d.path) := by
  have hKind := kind_diagnostics_render raw context d h
  obtain ⟨k, r, m, hVisit, hReport⟩ := Node.mem_diagnostics_render.mp h
  obtain ⟨path, position, rfl, rfl, -⟩ := Rendering.reported?_eq_missingVariable hReport hKind
  exact hVisit.each (standsAt_compile raw)

theorem exists_anomaly {raw : String} {d : Diagnostic} (h : d ∈ (compile raw).diagnostics) :
    ∃ a : Anomaly, a.At (scan raw) d.position ∧ d = a.diagnostic d.position :=
  exists_of_mem_diagnostics h

theorem standsAt_of_repair {raw : String} {d : Diagnostic} (h : d ∈ (compile raw).diagnostics) :
    (tagStart.toList <+: d.path.toList → Text.StandsAt raw d.position d.path) ∧
      (¬tagStart.toList <+: d.path.toList → Text.StandsAt raw d.position (openTag d.path)) := by
  obtain ⟨a, hAt, hDiagnostic⟩ := exists_anomaly h
  rw [show d.path = a.path from congrArg Diagnostic.path hDiagnostic]
  exact hAt.standsAt_path

/-- A repair has one cause, and its wording is that of the cause. -/
theorem exists_cause {raw : String} {d : Diagnostic} (h : d ∈ (compile raw).diagnostics) :
    ∃ a : Anomaly, (∀ b : Anomaly, b.At (scan raw) d.position ↔ b = a) ∧
      d.explanation = a.words := by
  obtain ⟨a, hAt, hDiagnostic⟩ := exists_anomaly h
  refine ⟨a, fun b => ⟨fun hb => hb.unique (nodup_starts_scan raw) hAt, ?_⟩, ?_⟩
  · rintro rfl
    exact hAt
  · rw [hDiagnostic]
    exact hAt.explanation

/-- Each diagnostic of a document stands at the directive that it is about: a missing variable at
its own directive, and a repair at a tag of its cause. The repairs come first, at places of their
own, and each is worded by its one cause. -/
theorem diagnostics_at_directives (raw : String) (context : Value) :
    let o := (compile raw).render context
    (∀ d ∈ o.diagnostics,
      (d.kind = .missingVariable → Text.StandsAt raw d.position (varTag d.path)) ∧
      (d.kind = .unbalancedTag → tagStart.toList <+: d.path.toList →
        Text.StandsAt raw d.position d.path) ∧
      (d.kind = .unbalancedTag → ¬tagStart.toList <+: d.path.toList →
        Text.StandsAt raw d.position (openTag d.path))) ∧
    ((compile raw).diagnostics.map Diagnostic.position).Nodup ∧
    (∃ missing, o.diagnostics = (compile raw).diagnostics ++ missing ∧
      (∀ d ∈ (compile raw).diagnostics, d.kind = .unbalancedTag) ∧
      ∀ d ∈ missing, d.kind = .missingVariable) ∧
    (∀ d ∈ (compile raw).diagnostics, ∃ a : Anomaly,
      (∀ b : Anomaly, b.At (scan raw) d.position ↔ b = a) ∧
      ∀ (coloured : Bool) (t : TemplateFile), d.line coloured t =
        t.path.text ++ ":" ++ toString (t.location d).line ++ ":" ++
          toString (t.location d).column ++ ": " ++ Style.boldYellow.apply coloured "warning" ++
          ": " ++ a.words) ∧
    Function.Injective words := by
  intro o
  -- The kind of a diagnostic tells which of the two parts of the list it is in.
  have hRepair : ∀ d ∈ o.diagnostics, d.kind = .unbalancedTag → d ∈ (compile raw).diagnostics := by
    intro d hd hKind
    rcases List.mem_append.mp hd with hFirst | hLast
    · exact hFirst
    · rw [kind_diagnostics_render raw context d hLast] at hKind
      contradiction
  have hMissing : ∀ d ∈ o.diagnostics, d.kind = .missingVariable →
      d ∈ ((compile raw).root.render context).diagnostics := by
    intro d hd hKind
    rcases List.mem_append.mp hd with hFirst | hLast
    · rw [kind_diagnostics_compile raw d hFirst] at hKind
      contradiction
    · exact hLast
  refine ⟨fun d hd => ⟨fun hKind => ?_, fun hKind => ?_, fun hKind => ?_⟩,
    nodup_positions_compile raw,
    ⟨_, rfl, kind_diagnostics_compile raw, kind_diagnostics_render raw context⟩,
    fun d hd => ?_, words_injective⟩
  · exact standsAt_of_missingVariable (hMissing d hd hKind)
  · exact (standsAt_of_repair (hRepair d hd hKind)).1
  · exact (standsAt_of_repair (hRepair d hd hKind)).2
  · obtain ⟨a, hCause, hWords⟩ := exists_cause hd
    refine ⟨a, hCause, fun coloured t => ?_⟩
    rw [Diagnostic.line, hWords]

/-- A close without an open, a variable that the data do not have and a section without a close, in
a text whose first letter has two bytes. -/
theorem diagnostics_at_directives_unclosed :
    let raw := "é\x7b#end\x7d\x7b#a\x7d\x7bx\x7d"
    let file := TemplateFile.ofText ⟨"t"⟩ raw
    let context := Value.mapping (.ofList [("a", .bool true)])
    let unclosed := Diagnostic.unbalancedTag "a" 8
    ((compile raw).render context).diagnostics =
      [.unbalancedTag closeTag 2, unclosed, .missingVariable "x" 12] ∧
    Text.StandsAt raw 2 "\x7b#end\x7d" ∧ Text.StandsAt raw 8 "\x7b#a\x7d" ∧
    Text.StandsAt raw 12 "\x7bx\x7d" ∧
    (∀ b : Anomaly, b.At (scan raw) 8 ↔ b = .unclosed "a") ∧
    unclosed.line false file =
      "t:1:8: warning: section 'a' is never closed, closed at end of template" := by
  intro raw file context unclosed
  have hScan : scan raw =
      [⟨.literal "é", 0, 2⟩, ⟨.closing none, 2, 6⟩, ⟨.opening "a", 8, 4⟩, ⟨.var "x", 12, 3⟩] :=
    scan_eq (by decide) (by decide)
  have hRepairs : (compile raw).diagnostics = [.unbalancedTag closeTag 2, unclosed] := by
    show (Balanced.ofTokens (scan raw)).diagnostics = _
    rw [hScan]
    decide
  have hMissing : ((compile raw).root.render context).diagnostics =
      [.missingVariable "x" 12] := by
    show ((Node.ofTokens (Balanced.ofTokens (scan raw)).tokens).render _).diagnostics = _
    rw [hScan]
    decide
  have hDiagnostics : ((compile raw).render context).diagnostics =
      [.unbalancedTag closeTag 2, unclosed, .missingVariable "x" 12] := by
    rw [render, hRepairs, hMissing]
    rfl
  obtain ⟨hStands, -, -, hWords, -⟩ := diagnostics_at_directives raw context
  rw [hDiagnostics] at hStands
  have hUnclosed : (Anomaly.unclosed "a").At (scan raw) 8 := by
    rw [hScan]
    exact .unclosed (b := ⟨"a", 8, 0⟩) (by decide) rfl
  obtain ⟨a, hCause, hLine⟩ := hWords unclosed (by rw [hRepairs]; decide)
  obtain rfl : Anomaly.unclosed "a" = a := (hCause _).mp hUnclosed
  refine ⟨hDiagnostics,
    (hStands (.unbalancedTag closeTag 2) (by decide)).2.1 rfl (by decide),
    (hStands unclosed (by decide)).2.2 rfl (by decide),
    (hStands (.missingVariable "x" 12) (by decide)).1 rfl, hCause, ?_⟩
  rw [hLine]
  decide

end Template
end DocTemplate
