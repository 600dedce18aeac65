import DocTemplate.Proofs.Template.Matching

/-! Balanced streams. What balancing makes of a token stream of any shape reads as nested sections:
each close carries the name of the innermost open section, none is left open, and no more than
`maxSectionDepth` are open at once. -/

namespace DocTemplate

namespace Balanced

/-- The names of the open sections after one more token, innermost first. A close has to carry the
innermost name. -/
def read? (names : List String) (t : Token) : Option (List String) :=
  match t.kind, names with
  | .opening name, names => some (name :: names)
  | .closing (some name), innermost :: names => if name = innermost then some names else none
  | .closing _, _ => none
  | .literal _, names | .var _, names => some names

/-- The tokens read to their end inside the sections `names` and leave none of these open, with
never more than `limit` sections open. -/
def IsNested (limit : Nat) : List String → List Token → Prop
  | names, [] => names = []
  | names, t :: ts => ∃ names', read? names t = some names' ∧ names'.length ≤ limit ∧
      IsNested limit names' ts

/-! ### Counting opens and closes -/

def opens (ts : List Token) : Nat := ts.countP fun t => t.kind matches .opening _

def closes (ts : List Token) : Nat := ts.countP fun t => t.kind matches .closing _

theorem length_read? {names names' : List String} {t : Token} (h : read? names t = some names') :
    names.length + opens [t] = names'.length + closes [t] := by
  obtain ⟨kind, start, length⟩ := t
  cases kind with
  | literal | var =>
    cases h
    rfl
  | opening name =>
    cases h
    simp [opens, closes]
  | closing name =>
    cases name with
    | none => contradiction
    | some name =>
      cases names with
      | nil => contradiction
      | cons innermost names =>
        simp only [read?] at h
        split at h
        · cases h
          simp [opens, closes]
        · contradiction

theorem opens_cons (t : Token) (ts : List Token) : opens (t :: ts) = opens [t] + opens ts := by
  simp [opens, List.countP_cons, Nat.add_comm]

theorem closes_cons (t : Token) (ts : List Token) : closes (t :: ts) = closes [t] + closes ts := by
  simp [closes, List.countP_cons, Nat.add_comm]

theorem IsNested.length {limit : Nat} {names : List String} {ts : List Token}
    (h : IsNested limit names ts) : names.length + opens ts = closes ts := by
  induction ts generalizing names with
  | nil =>
    obtain rfl : names = [] := h
    rfl
  | cons t ts ih =>
    obtain ⟨names', hRead, -, hRest⟩ := h
    have hToken := length_read? hRead
    have hTokens := ih hRest
    rw [opens_cons, closes_cons]
    omega

end Balanced

namespace Nesting

open DocTemplate.Balanced

/-- The names of the open sections, innermost first. -/
def names (n : Nesting) : List String := n.opened.map Opened.name

theorem length_names (n : Nesting) : n.names.length = n.depth := List.length_map _

/-- Whoever reads the stream has the same sections open as the nesting. -/
theorem Rule.read? {n : Nesting} {t : Token} {result : Repair × Nesting} (h : Rule n t result) :
    Balanced.read? n.names result.1.token = some result.2.names := by
  cases h with
  | literal | var | open_ | demote | closeDemoted | orphan => rfl
  | close name start length o rest none_waiting innermost =>
    simp [names, innermost, Balanced.read?]

theorem depth_pushAll (n : Nesting) (ts : List Token) :
    n.depth + opens ((n.pushAll ts).1.map Repair.token) =
      (n.pushAll ts).2.depth + closes ((n.pushAll ts).1.map Repair.token) := by
  induction ts generalizing n with
  | nil => rfl
  | cons t ts ih =>
    have hToken := length_read? (rule_push n t).read?
    have hTokens := ih (n.push t).2
    rw [length_names, length_names] at hToken
    simp only [pushAll_cons, List.map_cons]
    rw [opens_cons, closes_cons]
    omega

theorem isNested_closes (stop : Nat) (opened : List Opened)
    (h : opened.length ≤ maxSectionDepth) :
    IsNested maxSectionDepth (opened.map Opened.name)
      ((opened.map (Opened.close stop)).map Repair.token) := by
  induction opened with
  | nil => rfl
  | cons o opened ih =>
    rw [List.length_cons] at h
    refine ⟨opened.map Opened.name, ?_, ?_, ih (by omega)⟩
    · simp [Opened.close, read?]
    · rw [List.length_map]
      omega

/-- The depth stays within the limit, and it is at the limit while an open beyond it waits. -/
structure Bounded (n : Nesting) : Prop where
  depth_le : n.depth ≤ maxSectionDepth
  depth_eq : n.demoted ≠ 0 → n.depth = maxSectionDepth

theorem Agrees.bounded {n : Nesting} {stack : List Bracket} (h : Agrees n stack) : n.Bounded := by
  have hDepth := h.depth
  have hDemoted := h.demoted
  constructor <;> omega

/-- The stream from any state on, with the closes at its end, ends the sections of the state. -/
theorem isNested_pushAll {n : Nesting} {stack : List Bracket} (h : Agrees n stack)
    (ts : List Token) :
    IsNested maxSectionDepth n.names
      (((n.pushAll ts).1 ++ (n.pushAll ts).2.closeAll).map Repair.token) := by
  induction ts generalizing n stack with
  | nil => exact isNested_closes n.stop n.opened h.bounded.depth_le
  | cons t ts ih =>
    have hNext := (h.rule (rule_push n t)).2
    refine ⟨(n.push t).2.names, (rule_push n t).read?, ?_, ih hNext⟩
    rw [length_names]
    exact hNext.bounded.depth_le

end Nesting

namespace Balanced

theorem isNested_ofTokens (ts : List Token) : IsNested maxSectionDepth [] (ofTokens ts).tokens :=
  Nesting.isNested_pushAll Nesting.Agrees.empty ts

/-- Every token stream is balanced into nested sections, and before that the depth after each part
of the stream counts the sections that are open in what was made of the part. -/
theorem ofTokens_nested_within_limit (ts : List Token) :
    IsNested maxSectionDepth [] (ofTokens ts).tokens ∧
      (ofTokens ts).openCount = (ofTokens ts).closeCount ∧
      ∀ part, part <+: ts →
        let run := Nesting.empty.pushAll part
        (ofRepairs run.1).openCount = run.2.depth + (ofRepairs run.1).closeCount ∧
          run.2.depth ≤ maxSectionDepth ∧ (run.2.demoted ≠ 0 → run.2.depth = maxSectionDepth) := by
  refine ⟨isNested_ofTokens ts, ?_, fun part _ => ?_⟩
  · have hCount := (isNested_ofTokens ts).length
    rwa [List.length_nil, Nat.zero_add] at hCount
  · have hDepth := Nesting.depth_pushAll .empty part
    have hBounded := (Nesting.agrees_after part).bounded
    have hEmpty : Nesting.empty.depth = 0 := rfl
    rw [hEmpty, Nat.zero_add] at hDepth
    exact ⟨hDepth, hBounded.depth_le, hBounded.depth_eq⟩

/-- One open more than the limit: the last one waits for a close, and the depth is at the limit. -/
theorem ofTokens_nested_past_limit :
    let opens := List.replicate (maxSectionDepth + 1) (⟨.opening "a", 0, 4⟩ : Token)
    (Nesting.empty.pushAll opens).2.demoted ≠ 0 ∧
      (Nesting.empty.pushAll opens).2.depth = maxSectionDepth ∧
      (ofTokens opens).openCount = (ofTokens opens).closeCount := by
  intro opens
  have hDemoted : (Nesting.empty.pushAll opens).2.demoted ≠ 0 := by
    decide +kernel
  obtain ⟨-, hCount, hParts⟩ := ofTokens_nested_within_limit opens
  obtain ⟨-, -, hDepth⟩ := hParts opens List.prefix_rfl
  exact ⟨hDemoted, hDepth hDemoted, hCount⟩

end Balanced
end DocTemplate
