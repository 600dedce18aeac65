import DocTemplate.Template.References
import DocTemplate.Proofs.Rendering.Visit
import DocTemplate.Proofs.Template.Listing
import DocTemplate.Proofs.Template.Walk
import DocTemplate.Proofs.Text.Names

/-! What a template refers to. The walk of a tree comes to each node before its children and to a
tree before its right neighbours, so the variables and sections that it finds are the directives of
the tree, and these are the tokens of the stream that the tree was folded from. Every variable that
rendering can miss is among them. -/

namespace DocTemplate

namespace Node

/-- A variable as it is and a section without its children. -/
def mark? : Node → Option Node
  | .text _ => none
  | .var path position => some (.var path position)
  | .sect name path position _ => some (.sect name path position [])

theorem marking_node (n : Node) : Listing.marking.node n = n.mark?.toList ++ directives n.children := by
  cases n with
  | text | var => rfl
  | sect name path position children => exact List.append_nil _

mutual

theorem filterMap_mark_walk : (n : Node) → n.walk.filterMap mark? = Listing.marking.node n
  | .text s => by rw [walk_eq]; rfl
  | .var path position => by rw [walk_eq]; rfl
  | .sect name path position ns => by
    rw [walk_eq, marking_node, List.filterMap_cons, children, filterMap_mark_flatMap ns]
    rfl

/-- What the walk finds are the directives of the tree. -/
theorem filterMap_mark_flatMap : (ns : List Node) →
    (ns.flatMap walk).filterMap mark? = directives ns
  | [] => rfl
  | n :: ns => by
    rw [List.flatMap_cons, List.filterMap_append, filterMap_mark_walk n, filterMap_mark_flatMap ns]
    rfl

end

end Node

namespace References

open Node

theorem variablePath?_eq_bind (n : Node) : variablePath? n = n.mark?.bind variablePath? := by
  cases n <;> rfl

theorem sectionPath?_eq_bind (n : Node) : sectionPath? n = n.mark?.bind sectionPath? := by
  cases n <;> rfl

theorem written?_eq_some_iff {p : Path} {name : String} :
    written? p = some name ↔ p.isEmpty = false ∧ p.text = name := by
  rw [written?]
  cases p.isEmpty <;> simp

/-- A name read as a path is written as it was, unless it has no segments. -/
theorem written?_parse {name other : String} :
    written? (Path.parse other) = some name ↔ (name ≠ "" ∧ name ≠ ".") ∧ other = name := by
  rw [written?_eq_some_iff, Path.text_parse, ← not_or, ← Path.isEmpty_parse_iff, Bool.not_eq_true]
  exact and_congr_left fun h => h ▸ Iff.rfl

theorem variablePath?_begun? (t : Token) (name : String) :
    (begun? t).bind variablePath? = some name ↔
      (name ≠ "" ∧ name ≠ ".") ∧ t.kind = .var name := by
  obtain ⟨kind, start, length⟩ := t
  cases kind with
  | literal | opening | closing => simp [begun?, variablePath?, ofName]
  | var path =>
    rw [Token.Kind.var.injEq]
    exact written?_parse

theorem sectionPath?_begun? (t : Token) (name : String) :
    (begun? t).bind sectionPath? = some name ↔
      (name ≠ "" ∧ name ≠ ".") ∧ t.kind = .opening name := by
  obtain ⟨kind, start, length⟩ := t
  cases kind with
  | literal | var | closing => simp [begun?, sectionPath?]
  | opening path =>
    rw [Token.Kind.opening.injEq]
    exact written?_parse

section Readers

/- A reader of names that sees a node without its children, and no name in the section around a
whole template. -/
variable {read? : Node → Option String} (hMark : ∀ n, read? n = n.mark?.bind read?)
  (hRoot : read? (.root []) = none)
include hMark hRoot

theorem filterMap_walk_ofTokens (ts : List Token) :
    (Node.ofTokens ts).walk.filterMap read? = ts.filterMap fun t => (begun? t).bind read? := by
  have hRead : (fun n : Node => n.mark?.bind read?) = read? := funext fun n => (hMark n).symm
  rw [← hRead, ← List.filterMap_filterMap, filterMap_mark_walk, marking_node, List.filterMap_append,
    directives_ofTokens, List.filterMap_filterMap, hRead]
  show [Node.root []].filterMap read? ++ _ = _
  rw [List.filterMap_cons_none hRoot, List.filterMap_nil, List.nil_append]

theorem mem_walk_ofTokens {kind : String → Token.Kind} {name : String}
    (hToken : ∀ t, (begun? t).bind read? = some name ↔
      (name ≠ "" ∧ name ≠ ".") ∧ t.kind = kind name) (ts : List Token) :
    name ∈ Names.ofList ((Node.ofTokens ts).walk.filterMap read?) ↔
      (name ≠ "" ∧ name ≠ ".") ∧ ∃ t ∈ ts, t.kind = kind name := by
  rw [Names.mem_ofList, filterMap_walk_ofTokens hMark hRoot, List.mem_filterMap]
  simp only [hToken]
  tauto

end Readers

end References

/-! ### Variables that rendering misses -/

/-- Only nodes that a walk comes to are visited. -/
theorem Rendering.Visits.mem_flatMap_walk {r r' : Rendering} {ns : List Node} {k : Nat} {m : Node}
    (h : Visits r ns k r' m) : m ∈ ns.flatMap Node.walk := by
  induction h with
  | here r n ns =>
    rw [List.flatMap_cons, Node.walk_eq]
    exact List.mem_append_left _ List.mem_cons_self
  | later _ ih =>
    rw [List.flatMap_cons]
    exact List.mem_append_right _ ih
  | inside room passes _ ih =>
    rw [List.flatMap_cons, Node.walk_eq]
    exact List.mem_append_left _ (List.mem_cons_of_mem _ ih)

namespace References

open Rendering

/-- A variable that is evaluated is listed. -/
theorem mem_vars_of_visits {n : Node} {context : Value} {k : Nat} {r : Rendering} {path : Path}
    {position : Nat} (h : (start context).Visits n.children k r (.var path position))
    (hPath : path.isEmpty = false) : path.text ∈ (ofNode n).vars := by
  have hWalk : .var path position ∈ n.walk := by
    rw [Node.walk_eq]
    exact List.mem_cons_of_mem _ h.mem_flatMap_walk
  rw [ofNode, Names.mem_ofList]
  exact List.mem_filterMap.mpr ⟨_, hWalk, written?_eq_some_iff.mpr ⟨hPath, rfl⟩⟩

theorem missing_subset_vars (n : Node) (context : Value) :
    (n.render context).missingVariables.map Diagnostic.path ⊆ (ofNode n).vars := by
  intro name hName
  obtain ⟨d, hMissing, rfl⟩ := List.mem_map.mp hName
  obtain ⟨k, r, path, position, hVisit, ⟨hPath, -⟩, rfl⟩ :=
    Node.mem_missingVariables_render.mp hMissing
  exact mem_vars_of_visits hVisit hPath

/-- The listed names are in order and each once. Those of a tree folded from tokens, of any shape,
are the paths of its variables and the names of its opens, without the two that name nothing. Of any
tree they include all variables that a rendering can miss. -/
theorem ofNode_exact (ts : List Token) :
    (∀ n, (ofNode n).vars.Pairwise (· < ·) ∧ (ofNode n).sects.Pairwise (· < ·)) ∧
    (∀ name, name ∈ (ofNode (Node.ofTokens ts)).vars ↔
      (name ≠ "" ∧ name ≠ ".") ∧ ∃ t ∈ ts, t.kind = .var name) ∧
    (∀ name, name ∈ (ofNode (Node.ofTokens ts)).sects ↔
      (name ≠ "" ∧ name ≠ ".") ∧ ∃ t ∈ ts, t.kind = .opening name) ∧
    ∀ n context, (n.render context).missingVariables.map Diagnostic.path ⊆ (ofNode n).vars :=
  ⟨fun _ => ⟨Names.pairwise_ofList _, Names.pairwise_ofList _⟩,
    fun name => mem_walk_ofTokens variablePath?_eq_bind rfl (variablePath?_begun? · name) ts,
    fun name => mem_walk_ofTokens sectionPath?_eq_bind rfl (sectionPath?_begun? · name) ts,
    missing_subset_vars⟩

end References
end DocTemplate
