import DocTemplate.Proofs.Template.Fixpoint
import DocTemplate.Proofs.Template.Section

/-! Streams that need no repair. Balancing reports nothing exactly when every close has an open
before it, every open has a close after it, and the nesting keeps within the limit; then it changes
nothing but the names of the closes. A stream that reads as nested sections with the right names is
not changed at all, and so balancing a balanced stream gives it back. -/

namespace DocTemplate

open Token Matching

namespace Matching

/-- The token with the name of its open, if it is a close that has one. -/
def nameClose (stack : List Bracket) (t : Token) : Token :=
  match t.kind, stack with
  | .closing _, b :: _ => { t with kind := .closing (some b.name) }
  | _, _ => t

/-- Among sections within the limit only a name is added without a report. -/
theorem token_repair {stack : List Bracket} {t : Token} (hKept : ∀ b ∈ stack, b.isKept = true)
    (hSilent : (repair stack t).diagnostic = none) :
    (repair stack t).token = nameClose stack t := by
  obtain ⟨kind, start, length⟩ := t
  cases kind with
  | literal | var => rfl
  | opening name =>
    simp only [repair] at hSilent ⊢
    split at hSilent
    · contradiction
    · next hRoom =>
      rw [if_neg hRoom]
      rfl
  | closing name =>
    cases stack with
    | nil => contradiction
    | cons b rest =>
      simp only [repair, if_pos (hKept b List.mem_cons_self)]
      rfl

end Matching

/-! ### Closed streams by their counts -/

namespace Token

open DocTemplate.Balanced

theorem forall_prefix_cons {α : Type} {P : List α → Prop} {a : α} {l : List α} :
    (∀ part, part <+: a :: l → P part) ↔ P [] ∧ ∀ part, part <+: l → P (a :: part) := by
  constructor
  · intro h
    exact ⟨h [] List.nil_prefix, fun part hPart => h _ (List.cons_prefix_cons.mpr ⟨rfl, hPart⟩)⟩
  · rintro ⟨hNil, hCons⟩ part hPart
    rcases List.prefix_cons_iff.mp hPart with rfl | ⟨rest, rfl, hRest⟩
    · exact hNil
    · exact hCons rest hRest

theorem depthAfter?_eq_some_iff {limit depth next : Nat} {t : Token} (h : depth ≤ limit) :
    depthAfter? limit depth t = some next ↔
      depth + opens [t] = next + closes [t] ∧ next ≤ limit := by
  obtain ⟨kind, start, length⟩ := t
  cases kind with
  | literal | var =>
    simp only [depthAfter?, opens, closes, List.countP_singleton, Option.some.injEq]
    simp
    omega
  | opening name =>
    rw [depthAfter?_opening]
    simp [opens, closes]
    omega
  | closing name =>
    rw [depthAfter?_closing]
    simp [opens, closes]
    omega

/-- The depth after a stream is the depth before it, more by the opens and less by the closes, and
in no part of the stream is it below zero or over the limit. -/
theorem foldlM_depthAfter?_eq_some_iff {limit depth last : Nat} (ts : List Token)
    (h : depth ≤ limit) :
    ts.foldlM (depthAfter? limit) depth = some last ↔
      depth + opens ts = last + closes ts ∧
        ∀ part, part <+: ts → closes part ≤ depth + opens part ∧
          depth + opens part ≤ closes part + limit := by
  induction ts generalizing depth with
  | nil => simp [opens, closes, h]
  | cons t ts ih =>
    rw [List.foldlM_cons, forall_prefix_cons, opens_cons, closes_cons]
    refine Option.bind_eq_some_iff.trans ⟨?_, ?_⟩
    · rintro ⟨next, hNext, hRest⟩
      obtain ⟨hHere, hRoom⟩ := (depthAfter?_eq_some_iff h).mp hNext
      obtain ⟨hLast, hParts⟩ := (ih hRoom).mp hRest
      refine ⟨by omega, ⟨Nat.zero_le _, ?_⟩, fun part hPart => ?_⟩
      · show depth + 0 ≤ 0 + limit
        omega
      · have hLater := hParts part hPart
        rw [opens_cons, closes_cons]
        omega
    · rintro ⟨hLast, -, hParts⟩
      -- The part that ends with the token gives the depth after it.
      have hHere := hParts [] List.nil_prefix
      refine ⟨depth + opens [t] - closes [t], (depthAfter?_eq_some_iff h).mpr (by omega),
        (ih (by omega)).mpr ⟨by omega, fun part hPart => ?_⟩⟩
      have hLater := hParts part hPart
      rw [opens_cons, closes_cons] at hLater
      omega

theorem isClosed_iff {limit : Nat} {ts : List Token} :
    IsClosed limit ts ↔ opens ts = closes ts ∧
      ∀ part, part <+: ts → closes part ≤ opens part ∧ opens part ≤ closes part + limit := by
  have hCount : ts.foldlM (depthAfter? limit) 0 = some 0 ↔ _ :=
    foldlM_depthAfter?_eq_some_iff ts (Nat.zero_le limit)
  simp only [Nat.zero_add] at hCount
  exact hCount

end Token

namespace Nesting

/-! ### A run without a report -/

/-- What a token does to the depth if nothing is reported about it. A close is demoted without a
report only when an open before it was demoted with one. -/
theorem Rule.depthAfter?_of_silent {n : Nesting} {t : Token} {result : Repair × Nesting}
    (h : Rule n t result) (hNone : n.demoted = 0) (hSilent : result.1.diagnostic = none) :
    depthAfter? maxSectionDepth n.depth t = some result.2.depth ∧ result.2.demoted = 0 := by
  cases h with
  | literal | var => exact ⟨rfl, hNone⟩
  | open_ name start length room => exact ⟨depthAfter?_opening.mpr ⟨room, rfl⟩, hNone⟩
  | demote | orphan => contradiction
  | closeDemoted name start length d waiting => omega
  | close name start length o rest none_waiting innermost =>
    refine ⟨depthAfter?_closing.mpr ?_, hNone⟩
    rw [Nesting.depth, innermost]
    rfl

theorem foldlM_depthAfter?_of_silent {n : Nesting} {ts : List Token} (hNone : n.demoted = 0)
    (hSilent : ∀ r ∈ (n.pushAll ts).1, r.diagnostic = none) :
    ts.foldlM (depthAfter? maxSectionDepth) n.depth = some (n.pushAll ts).2.depth := by
  induction ts generalizing n with
  | nil => rfl
  | cons t ts ih =>
    obtain ⟨hHere, hLater⟩ := List.forall_mem_cons.mp hSilent
    obtain ⟨hDepth, hDemoted⟩ := (rule_push n t).depthAfter?_of_silent hNone hHere
    rw [List.foldlM_cons, hDepth]
    exact ih hDemoted hLater

/-! ### A run that changes nothing -/

theorem Rule.of_read? {n : Nesting} {t : Token} {result : Repair × Nesting} {names : List String}
    (h : Rule n t result) (hNone : n.demoted = 0) (hRead : Balanced.read? n.names t = some names)
    (hRoom : names.length ≤ maxSectionDepth) :
    result.1 = ⟨t, none⟩ ∧ result.2.demoted = 0 ∧ result.2.names = names := by
  cases h with
  | literal | var | open_ => exact ⟨rfl, hNone, Option.some.inj hRead⟩
  | demote name start length full =>
    cases hRead
    rw [List.length_cons, length_names] at hRoom
    omega
  | closeDemoted name start length d waiting => omega
  | close name start length o rest none_waiting innermost =>
    rw [Nesting.names, innermost] at hRead
    cases name with
    | none => contradiction
    | some name =>
      simp only [Balanced.read?, List.map_cons] at hRead
      split at hRead
      · next hName =>
        rw [hName]
        exact ⟨rfl, hNone, Option.some.inj hRead⟩
      · contradiction
  | orphan name start length none_waiting outside =>
    rw [Nesting.names, outside] at hRead
    cases name <;> contradiction

theorem pushAll_of_isNested {n : Nesting} {ts : List Token} (hNone : n.demoted = 0)
    (h : Balanced.IsNested maxSectionDepth n.names ts) :
    (n.pushAll ts).1 = ts.map (⟨·, none⟩) ∧ (n.pushAll ts).2.names = [] := by
  induction ts generalizing n with
  | nil => exact ⟨rfl, h⟩
  | cons t ts ih =>
    obtain ⟨names, hRead, hRoom, hRest⟩ := h
    obtain ⟨hRepair, hDemoted, hNames⟩ := (rule_push n t).of_read? hNone hRead hRoom
    rw [← hNames] at hRest
    obtain ⟨hRepairs, hLast⟩ := ih hDemoted hRest
    refine ⟨?_, hLast⟩
    rw [pushAll_cons, hRepair, hRepairs, List.map_cons]

end Nesting

namespace Balanced

open Nesting

theorem ofTokens_of_isNested {ts : List Token} (h : IsNested maxSectionDepth [] ts) :
    ofTokens ts = ⟨ts, []⟩ := by
  obtain ⟨hRepairs, hNames⟩ := pushAll_of_isNested (n := Nesting.empty) rfl h
  have hClosed : (after ts).opened = [] := List.map_eq_nil_iff.mp hNames
  rw [Nesting.ofTokens_eq, hRepairs, closeAll, hClosed]
  simp [ofRepairs, Function.comp_def]

/-- A silent run ends with all sections closed. -/
theorem isClosed_of_diagnostics {ts : List Token} (h : (ofTokens ts).diagnostics = []) :
    Token.IsClosed maxSectionDepth ts := by
  rw [diagnostics_ofTokens, List.append_eq_nil_iff, List.filterMap_eq_nil_iff,
    List.map_eq_nil_iff] at h
  obtain ⟨hSilent, hOpened⟩ := h
  have hDepth := foldlM_depthAfter?_of_silent (n := Nesting.empty) rfl hSilent
  rw [Token.IsClosed]
  refine hDepth.trans ?_
  show some (after ts).opened.length = some 0
  rw [hOpened]
  rfl

/-- The opens before any token of a closed stream are within the limit. -/
theorem isKept_of_isClosed {ts : List Token} (h : Token.IsClosed maxSectionDepth ts) (i : Nat) :
    ∀ b ∈ unmatched (ts.take i), b.isKept = true := by
  rw [Token.IsClosed, ← List.take_append_drop i ts, List.foldlM_append] at h
  obtain ⟨depth, hPart, -⟩ := Option.bind_eq_some_iff.mp h
  have hRun := pushAll_inside (n := Nesting.empty) hPart rfl [] (Nat.le_refl _)
  have hDemoted := (agrees_after (ts.take i)).demoted
  rw [show (after (ts.take i)).demoted = 0 from hRun.2.2.1] at hDemoted
  rw [forall_isKept_iff]
  omega

theorem tokens_of_isClosed {ts : List Token} (h : Token.IsClosed maxSectionDepth ts) :
    (ofTokens ts).tokens = ts.mapIdx fun i t => nameClose (unmatched (ts.take i)) t := by
  obtain ⟨hRun, hSilent, -, -⟩ := ofTokens_closed h (Nat.le_refl _)
  rw [hRun] at hSilent
  have hRepairs := (Agrees.empty.pushAll ts).1
  rw [hRun]
  refine List.ext_getElem (by simp [ofRepairs, hRepairs]) fun i _ hi => ?_
  have hIndex : i < ts.length := by simpa using hi
  have hMem : repair (unmatched (ts.take i)) ts[i] ∈ (Nesting.empty.pushAll ts).1 := by
    rw [hRepairs]
    exact List.mem_mapIdx.mpr ⟨i, hIndex, rfl⟩
  have hToken := token_repair (isKept_of_isClosed h i)
    (List.filterMap_eq_nil_iff.mp hSilent _ hMem)
  rw [List.getElem_mapIdx, ← hToken]
  simp only [ofRepairs, hRepairs, List.getElem_map, List.getElem_mapIdx]
  rfl

/-- Balancing reports nothing exactly if no part of the stream has more closes than opens or an
excess of opens over the limit and the whole has as many of both; and then it names the closes and
changes nothing else. What it makes of any stream is of that kind with the right names, and so a
second balancing changes nothing at all. -/
theorem ofTokens_settled (ts : List Token) :
    ((ofTokens ts).diagnostics = [] ↔ opens ts = closes ts ∧
      ∀ part, part <+: ts →
        closes part ≤ opens part ∧ opens part ≤ closes part + maxSectionDepth) ∧
    ((ofTokens ts).diagnostics = [] →
      (ofTokens ts).tokens = ts.mapIdx fun i t => nameClose (unmatched (ts.take i)) t) ∧
    ofTokens (ofTokens ts).tokens = ⟨(ofTokens ts).tokens, []⟩ := by
  refine ⟨?_, fun h => tokens_of_isClosed (isClosed_of_diagnostics h),
    ofTokens_of_isNested (isNested_ofTokens ts)⟩
  rw [← isClosed_iff]
  exact ⟨isClosed_of_diagnostics, fun h => (ofTokens_closed h (Nat.le_refl _)).2.1⟩

/-- Sections side by side and in one another, with a close under a wrong name. -/
theorem ofTokens_settled_wrong_name :
    let ts : List Token := [⟨.opening "a", 0, 4⟩, ⟨.opening "b", 4, 4⟩, ⟨.closing none, 8, 6⟩,
      ⟨.opening "c", 14, 4⟩, ⟨.closing (some "a"), 18, 6⟩, ⟨.closing none, 24, 6⟩]
    (opens ts = closes ts ∧ ∀ part, part <+: ts →
      closes part ≤ opens part ∧ opens part ≤ closes part + maxSectionDepth) ∧
      (ofTokens ts).diagnostics = [] ∧
      (ofTokens ts).tokens.map Token.kind = [.opening "a", .opening "b", .closing (some "b"),
        .opening "c", .closing (some "c"), .closing (some "a")] := by
  intro ts
  obtain ⟨hSilent, hTokens, -⟩ := ofTokens_settled ts
  have hClosed : Token.IsClosed maxSectionDepth ts := by decide
  have hNone := hSilent.mpr (isClosed_iff.mp hClosed)
  refine ⟨isClosed_iff.mp hClosed, hNone, ?_⟩
  rw [hTokens hNone]
  decide

end Balanced
end DocTemplate
