import DocTemplate.Proofs.Rendering.Emission
import DocTemplate.Proofs.Rendering.Scope
import DocTemplate.Proofs.Template.Origin

/-! The course of a rendering. A rendering visits nodes, each in the state that the nodes before it
have left, and what it reports is what it reports at the nodes that it visits. All these states have
the document's data at the bottom of their scope, and their depth counts the sections around the
node. -/

namespace DocTemplate

theorem Scope.root_enter (s : Scope) (pass : Pass) : (s.enter pass).root = s.root := by
  cases pass <;> rfl

theorem Outcome.mem_diagnostics_join {os : List Outcome} {d : Diagnostic} :
    d ∈ (join os).diagnostics ↔ ∃ o ∈ os, d ∈ o.diagnostics := by
  induction os with
  | nil => simp [join, nothing]
  | cons o os ih => simp [join, ih]

namespace Rendering

open Node

/-- The state after a pass over a body. -/
def through (children : List Node) (r : Rendering) : Scope.Pass → Rendering
  | none => r.nodes children
  | some f => ((r.enter f).nodes children).leave

/-- The state in which a pass over the body of a section begins, after the passes `before` it. -/
def atPass (r : Rendering) (children : List Node) (before : List Scope.Pass)
    (pass : Scope.Pass) : Rendering :=
  let r := before.foldl (through children) { r with depth := r.depth + 1 }
  { r with scope := r.scope.enter pass }

/-- Rendering `ns` from the state `r` visits the node `m` in the state `r'`, inside `k` of the
sections among `ns`. -/
inductive Visits : Rendering → List Node → Nat → Rendering → Node → Prop
  | here (r : Rendering) (n : Node) (ns : List Node) : Visits r (n :: ns) 0 r n
  | later {r : Rendering} {n : Node} {ns : List Node} {k : Nat} {r' : Rendering} {m : Node}
    (h : Visits (r.node n) ns k r' m) : Visits r (n :: ns) k r' m
  | inside {r : Rendering} {name : String} {path : Path} {position : Nat}
    {children ns : List Node} {before after : List Scope.Pass} {pass : Scope.Pass}
    {k : Nat} {r' : Rendering} {m : Node} (room : r.depth < maxSectionDepth)
    (passes : r.scope.passes name path = before ++ pass :: after)
    (h : Visits (r.atPass children before pass) children k r' m) :
    Visits r (.sect name path position children :: ns) (k + 1) r' m

/-- What rendering reports at a node itself and not at the nodes inside it. -/
def reported? (r : Rendering) : Node → Option Diagnostic
  | .text _ => none
  | .var path position =>
    if path.isEmpty || (r.scope.lookup? path).isSome then none
    else some (.missingVariable path.text position)
  | .sect name _ position _ =>
    if maxSectionDepth ≤ r.depth then some (.unbalancedTag (Token.openTag name) position) else none

theorem reported?_eq_missingVariable {r : Rendering} {m : Node} {d : Diagnostic}
    (h : r.reported? m = some d) (hKind : d.kind = .missingVariable) :
    ∃ path position, m = .var path position ∧ d = .missingVariable path.text position ∧
      r.scope.lookup? path = none := by
  cases m with
  | text s => contradiction
  | sect name path position children =>
    rw [reported?] at h
    split at h
    · rw [← Option.some.inj h] at hKind
      contradiction
    · contradiction
  | var path position =>
    rw [reported?] at h
    split at h
    · contradiction
    · next hMissing =>
      refine ⟨path, position, rfl, (Option.some.inj h).symm, ?_⟩
      rw [Bool.or_eq_true, not_or, Option.not_isSome_iff_eq_none] at hMissing
      exact hMissing.2

/-- A variable is reported if it names something and has no value. -/
theorem reported?_var_eq_some_iff {r : Rendering} {path : Path} {position : Nat} {d : Diagnostic} :
    r.reported? (.var path position) = some d ↔
      (path.isEmpty = false ∧ r.scope.lookup? path = none) ∧
        .missingVariable path.text position = d := by
  rw [reported?]
  cases path.isEmpty <;> cases r.scope.lookup? path <;> simp

/-- A pass finds the scope of the section, whatever the passes before it did. -/
theorem scope_depth_atPass (r : Rendering) (children : List Node) (before : List Scope.Pass)
    (pass : Scope.Pass) :
    (r.atPass children before pass).scope = r.scope.enter pass ∧
      (r.atPass children before pass).depth = r.depth + 1 := by
  have hFold : ∃ o, before.foldl (through children) { r with depth := r.depth + 1 } =
      ({ r with depth := r.depth + 1 } : Rendering).add o :=
    ⟨_, foldl_passes (fun r => nodes_eq_add r children) before _⟩
  obtain ⟨o, hFold⟩ := hFold
  rw [atPass, hFold]
  exact ⟨rfl, rfl⟩

theorem Visits.root {r r' : Rendering} {ns : List Node} {k : Nat} {m : Node}
    (h : Visits r ns k r' m) : r'.scope.root = r.scope.root := by
  induction h with
  | here => rfl
  | later _ ih => rw [ih, node_eq_add, scope_add]
  | inside room passes _ ih => rw [ih, (scope_depth_atPass _ _ _ _).1, Scope.root_enter]

/-- The depth is the number of sections around the node and never more than the limit. -/
theorem Visits.depth {r r' : Rendering} {ns : List Node} {k : Nat} {m : Node}
    (h : Visits r ns k r' m) (hLimit : r.depth ≤ maxSectionDepth) :
    r'.depth = r.depth + k ∧ r.depth + k ≤ maxSectionDepth := by
  induction h with
  | here => exact ⟨rfl, hLimit⟩
  | later _ ih =>
    rw [node_eq_add, depth_add] at ih
    exact ih hLimit
  | inside room passes _ ih =>
    rw [(scope_depth_atPass _ _ _ _).2] at ih
    obtain ⟨hDepth, hInner⟩ := ih room
    constructor <;> omega

/-- Only nodes of the tree are visited. -/
theorem Visits.each {vars : Path → Nat → Prop} {sects : String → Path → Nat → Prop}
    {r r' : Rendering} {ns : List Node} {k : Nat} {m : Node} (h : Visits r ns k r' m)
    (hEach : EachAll vars sects ns) : m.Each vars sects := by
  induction h with
  | here => exact hEach.1
  | later _ ih => exact ih hEach.2
  | inside _ _ _ ih => exact ih hEach.1.2

/-! ### Reports and visits -/

theorem Visits.mem_diagnostics {r r' : Rendering} {ns : List Node} {k : Nat} {m : Node}
    (h : Visits r ns k r' m) {d : Diagnostic} (hReport : r'.reported? m = some d) :
    d ∈ (emitAll r.scope r.depth ns).diagnostics := by
  induction h with
  | here r n ns =>
    rw [emitAll, Outcome.diagnostics_append]
    refine List.mem_append_left _ ?_
    cases n with
    | text s => contradiction
    | var path position =>
      rw [emit]
      rw [reported?] at hReport
      cases hEmpty : path.isEmpty <;> cases hFound : r.scope.lookup? path <;> simp_all
    | sect name path position children =>
      rw [emit]
      rw [reported?] at hReport
      split at hReport
      · next hDeep =>
        rw [if_pos hDeep, ← Option.some.inj hReport]
        exact List.mem_singleton_self _
      · contradiction
  | later _ ih =>
    have hRest := ih hReport
    rw [node_eq_add, scope_add, depth_add] at hRest
    rw [emitAll, Outcome.diagnostics_append]
    exact List.mem_append_right _ hRest
  | @inside r name path position children ns before after pass k r' m room passes _ ih =>
    have hBody := ih hReport
    rw [(scope_depth_atPass _ _ _ _).1, (scope_depth_atPass _ _ _ _).2] at hBody
    rw [emitAll, Outcome.diagnostics_append, emit, if_neg (Nat.not_le.mpr room)]
    refine List.mem_append_left _ (Outcome.mem_diagnostics_join.mpr ⟨_, ?_, hBody⟩)
    exact List.mem_map.mpr ⟨pass, by simp [passes], rfl⟩

mutual

theorem visits_of_mem_emit {d : Diagnostic} (r : Rendering) : (n : Node) → (ns : List Node) →
    d ∈ (n.emit r.scope r.depth).diagnostics →
      ∃ k r' m, Visits r (n :: ns) k r' m ∧ r'.reported? m = some d
  | .text s, ns, h => by simp [emit] at h
  | .var path position, ns, h => by
    refine ⟨0, r, _, .here r _ ns, ?_⟩
    rw [emit] at h
    rw [reported?]
    cases hEmpty : path.isEmpty <;> cases hFound : r.scope.lookup? path <;>
      simp_all [Outcome.nothing]
  | .sect name path position children, ns, h => by
    rw [emit] at h
    split at h
    · next hDeep =>
      refine ⟨0, r, _, .here r _ ns, ?_⟩
      rw [reported?, if_pos hDeep, List.mem_singleton.mp h]
    · next hRoom =>
      obtain ⟨o, ho, hReport⟩ := Outcome.mem_diagnostics_join.mp h
      obtain ⟨pass, hPass, rfl⟩ := List.mem_map.mp ho
      obtain ⟨before, after, hPasses⟩ := List.append_of_mem hPass
      -- The pass begins where the passes before it end, with the section's scope.
      obtain ⟨hScope, hDepth⟩ := scope_depth_atPass r children before pass
      rw [← hScope, ← hDepth] at hReport
      obtain ⟨k, r', m, hVisit, hNode⟩ := visits_of_mem_emitAll _ children hReport
      exact ⟨k + 1, r', m, .inside (Nat.not_le.mp hRoom) hPasses hVisit, hNode⟩

theorem visits_of_mem_emitAll {d : Diagnostic} (r : Rendering) : (ns : List Node) →
    d ∈ (emitAll r.scope r.depth ns).diagnostics →
      ∃ k r' m, Visits r ns k r' m ∧ r'.reported? m = some d
  | [], h => by simp [emitAll, Outcome.nothing] at h
  | n :: ns, h => by
    rw [emitAll, Outcome.diagnostics_append] at h
    rcases List.mem_append.mp h with hHead | hTail
    · exact visits_of_mem_emit r n ns hHead
    · have hRest : d ∈ (emitAll (r.node n).scope (r.node n).depth ns).diagnostics := by
        rwa [node_eq_add, scope_add, depth_add]
      obtain ⟨k, r', m, hVisit, hNode⟩ := visits_of_mem_emitAll (r.node n) ns hRest
      exact ⟨k, r', m, .later hVisit, hNode⟩

end

end Rendering

/-- The diagnostics of a rendering are the reports at the nodes that it visits. -/
theorem Node.mem_diagnostics_render {n : Node} {context : Value} {d : Diagnostic} :
    d ∈ (n.render context).diagnostics ↔ ∃ k r m,
      (Rendering.start context).Visits n.children k r m ∧ r.reported? m = some d := by
  rw [render_eq_emitAll]
  constructor
  · exact Rendering.visits_of_mem_emitAll (Rendering.start context) n.children
  · rintro ⟨k, r, m, hVisit, hReport⟩
    exact hVisit.mem_diagnostics hReport

/-- The variables that a rendering misses are those that it visits and that have no value there. -/
theorem Node.mem_missingVariables_render {n : Node} {context : Value} {d : Diagnostic} :
    d ∈ (n.render context).missingVariables ↔ ∃ k r path position,
      (Rendering.start context).Visits n.children k r (.var path position) ∧
        (path.isEmpty = false ∧ r.scope.lookup? path = none) ∧
          .missingVariable path.text position = d := by
  rw [Outcome.missingVariables, List.mem_filter, beq_iff_eq, mem_diagnostics_render]
  constructor
  · rintro ⟨⟨k, r, m, hVisit, hReport⟩, hKind⟩
    obtain ⟨path, position, rfl, -, -⟩ := Rendering.reported?_eq_missingVariable hReport hKind
    exact ⟨k, r, path, position, hVisit, Rendering.reported?_var_eq_some_iff.mp hReport⟩
  · rintro ⟨k, r, path, position, hVisit, hMissed⟩
    exact ⟨⟨k, r, _, hVisit, Rendering.reported?_var_eq_some_iff.mpr hMissed⟩, hMissed.2 ▸ rfl⟩

end DocTemplate
