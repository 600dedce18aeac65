import DocTemplate.Template.Rendering

/-! What a tree adds to a document. Rendering threads a state through the tree, but all that a tree
does to the state is to append an outcome, which depends on the scope and the depth alone: after a
section the scope and the depth are what they were before it. So the outcomes of nodes side by side
follow one another, and that of a section is made of one outcome for each pass over its body. -/

namespace DocTemplate

namespace Outcome

def nothing : Outcome := ⟨"", []⟩

instance : Append Outcome :=
  ⟨fun a b => ⟨a.output ++ b.output, a.diagnostics ++ b.diagnostics⟩⟩

@[simp] theorem output_append (a b : Outcome) : (a ++ b).output = a.output ++ b.output := rfl

@[simp] theorem diagnostics_append (a b : Outcome) :
    (a ++ b).diagnostics = a.diagnostics ++ b.diagnostics := rfl

@[simp] theorem nothing_append (a : Outcome) : nothing ++ a = a := by
  show (⟨"" ++ a.output, [] ++ a.diagnostics⟩ : Outcome) = a
  rw [String.empty_append, List.nil_append]

@[simp] theorem append_nothing (a : Outcome) : a ++ nothing = a := by
  show (⟨a.output ++ "", a.diagnostics ++ []⟩ : Outcome) = a
  rw [String.append_empty, List.append_nil]

theorem append_assoc (a b c : Outcome) : a ++ b ++ c = a ++ (b ++ c) := by
  show (⟨_, _⟩ : Outcome) = ⟨_, _⟩
  rw [output_append, diagnostics_append, String.append_assoc, List.append_assoc]
  rfl

/-- The outcomes one after another. -/
def join : List Outcome → Outcome
  | [] => nothing
  | o :: os => o ++ join os

theorem join_singleton (o : Outcome) : join [o] = o := by
  rw [join, join, append_nothing]

theorem unbalancedTags_append (a b : Outcome) :
    (a ++ b).unbalancedTags = a.unbalancedTags ++ b.unbalancedTags := by
  rw [unbalancedTags, diagnostics_append, List.filter_append]
  rfl

theorem unbalancedTags_join {os : List Outcome} (h : ∀ o ∈ os, o.unbalancedTags = []) :
    (join os).unbalancedTags = [] := by
  induction os with
  | nil => rfl
  | cons o os ih =>
    obtain ⟨hHead, hTail⟩ := List.forall_mem_cons.mp h
    rw [join, unbalancedTags_append, hHead, ih hTail, List.append_nil]

end Outcome

namespace Scope

/-- The scope of a pass over the body of a section. -/
def enter (s : Scope) : Pass → Scope
  | none => s
  | some f => s.push f

end Scope

namespace Node

open Outcome

mutual

/-- The outcome that a node adds inside `depth` sections. -/
def emit (s : Scope) (depth : Nat) : Node → Outcome
  | .text t => ⟨t, []⟩
  | .var path position =>
    if path.isEmpty then nothing
    else
      match s.lookup? path with
      | some v => ⟨v.text, []⟩
      | none => ⟨"", [.missingVariable path.text position]⟩
  | .sect name path position children =>
    if maxSectionDepth ≤ depth then ⟨"", [.unbalancedTag (Token.openTag name) position]⟩
    else join ((s.passes name path).map fun pass => emitAll (s.enter pass) (depth + 1) children)

def emitAll (s : Scope) (depth : Nat) : List Node → Outcome
  | [] => nothing
  | n :: ns => n.emit s depth ++ emitAll s depth ns

end

theorem emitAll_append (s : Scope) (depth : Nat) (as bs : List Node) :
    emitAll s depth (as ++ bs) = emitAll s depth as ++ emitAll s depth bs := by
  induction as with
  | nil => simp [emitAll]
  | cons n ns ih => rw [List.cons_append, emitAll, emitAll, ih, Outcome.append_assoc]

theorem emitAll_singleton (s : Scope) (depth : Nat) (n : Node) :
    emitAll s depth [n] = n.emit s depth := by
  rw [emitAll, emitAll, append_nothing]

end Node

namespace Rendering

open Outcome Node

/-- The state after `o` has been written and reported. -/
def add (r : Rendering) (o : Outcome) : Rendering :=
  { r with output := r.output ++ o.output, diagnostics := r.diagnostics ++ o.diagnostics }

@[simp] theorem scope_add (r : Rendering) (o : Outcome) : (r.add o).scope = r.scope := rfl

@[simp] theorem depth_add (r : Rendering) (o : Outcome) : (r.add o).depth = r.depth := rfl

@[simp] theorem add_nothing (r : Rendering) : r.add nothing = r := by
  show { r with output := r.output ++ "", diagnostics := r.diagnostics ++ [] } = r
  rw [String.append_empty, List.append_nil]

theorem add_add (r : Rendering) (a b : Outcome) : (r.add a).add b = r.add (a ++ b) := by
  simp only [add, output_append, diagnostics_append, String.append_assoc, List.append_assoc]

theorem leave_add_enter (r : Rendering) (f : Scope.Frame) (o : Outcome) :
    ((r.enter f).add o).leave = r.add o := rfl

theorem variableAt_eq_add (r : Rendering) (path : Path) (position : Nat) :
    r.variableAt path position = r.add ((Node.var path position).emit r.scope r.depth) := by
  rw [variableAt, emit]
  split
  · rw [add_nothing]
  · cases r.scope.lookup? path with
    | some v => simp [write, add]
    | none => simp [report, add]

/-- A pass over a body that only adds to the document leaves the scope as it found it, and so the
next pass begins where the first one did. -/
theorem foldl_passes {children : List Node}
    (h : ∀ r : Rendering, r.nodes children = r.add (emitAll r.scope r.depth children))
    (passes : List Scope.Pass) (r : Rendering) :
    passes.foldl (fun r pass =>
        match pass with
        | none => r.nodes children
        | some f => ((r.enter f).nodes children).leave) r =
      r.add (join (passes.map fun pass => emitAll (r.scope.enter pass) r.depth children)) := by
  induction passes generalizing r with
  | nil => exact (add_nothing r).symm
  | cons pass passes ih =>
    have hPass : (match pass with
        | none => r.nodes children
        | some f => ((r.enter f).nodes children).leave) =
        r.add (emitAll (r.scope.enter pass) r.depth children) := by
      cases pass with
      | none => exact h r
      | some f =>
        show ((r.enter f).nodes children).leave = _
        rw [h, leave_add_enter]
        rfl
    -- Scope and depth are those of `r` again, so the rest of the passes is the induction's.
    rw [List.foldl_cons, hPass, ih, List.map_cons, join, scope_add, depth_add, add_add]

mutual

theorem node_eq_add (r : Rendering) : (n : Node) → r.node n = r.add (n.emit r.scope r.depth)
  | .text s => by simp [node, emit, write, add]
  | .var path position => by rw [node, variableAt_eq_add]
  | .sect name path position children => by
    rw [node, emit]
    split
    · simp [report, add]
    · have hPasses := foldl_passes (fun r => nodes_eq_add r children) (r.scope.passes name path)
        { r with depth := r.depth + 1 }
      exact congrArg (fun r : Rendering => { r with depth := r.depth - 1 }) hPasses

/-- Nodes leave the scope and the depth as they were and append what they emit. -/
theorem nodes_eq_add (r : Rendering) :
    (ns : List Node) → r.nodes ns = r.add (emitAll r.scope r.depth ns)
  | [] => by rw [nodes, emitAll, add_nothing]
  | n :: ns => by
    rw [nodes, emitAll, node_eq_add r n, nodes_eq_add _ ns, scope_add, depth_add, add_add]

end

/-- Rendering nodes leaves the scope and the depth as they were and appends an outcome that is the
same whatever was written and reported before. Of nodes one after another, each list appends its
own. -/
theorem nodes_restore (s : Scope) (depth : Nat) (ns ms : List Node) :
    ∃ a b : Outcome, ∀ (output : String) (diagnostics : List Diagnostic),
      let r : Rendering := ⟨s, depth, output, diagnostics⟩
      r.nodes ns = ⟨s, depth, output ++ a.output, diagnostics ++ a.diagnostics⟩ ∧
      r.nodes ms = ⟨s, depth, output ++ b.output, diagnostics ++ b.diagnostics⟩ ∧
      r.nodes (ns ++ ms) = ⟨s, depth, output ++ a.output ++ b.output,
        diagnostics ++ a.diagnostics ++ b.diagnostics⟩ := by
  refine ⟨emitAll s depth ns, emitAll s depth ms, fun output diagnostics => ⟨?_, ?_, ?_⟩⟩
  · exact nodes_eq_add _ ns
  · exact nodes_eq_add _ ms
  · rw [nodes_eq_add, emitAll_append, ← add_add]
    rfl

end Rendering

/-- The outcome of a tree in a scope of any sort, as if the tree were a whole template. -/
def Node.renderIn (n : Node) (s : Scope) : Outcome :=
  ((⟨s, 0, "", []⟩ : Rendering).nodes n.children).outcome

theorem Node.renderIn_eq_emitAll (n : Node) (s : Scope) :
    n.renderIn s = emitAll s 0 n.children := by
  rw [renderIn, Rendering.nodes_eq_add]
  exact Outcome.nothing_append _

theorem Node.render_eq_emitAll (n : Node) (context : Value) :
    n.render context = emitAll (.ofRoot context) 0 n.children :=
  n.renderIn_eq_emitAll (.ofRoot context)

end DocTemplate
