import DocTemplate.Proofs.Rendering.Emission
import DocTemplate.Proofs.Rendering.Scope
import DocTemplate.Proofs.Template.Depth
import DocTemplate.Proofs.Template.Origin

/-! Documents without data. Against the empty mapping no name has a value, so every section that has
a name is left out, and every variable is missing. Only the sections of the document itself, which
are named by a dot alone, are passed through. What remains of a template is its skeleton. -/

namespace DocTemplate

open Token

/-! ### The leaves of a tree -/

namespace Node

mutual

/-- The texts and variables of a tree in document order, each with the names of the sections around
it, innermost first. -/
def leaves (around : List String) : Node → List (List String × Node)
  | .text s => [(around, .text s)]
  | .var path position => [(around, .var path position)]
  | .sect name _ _ children => leavesAll (name :: around) children

def leavesAll (around : List String) : List Node → List (List String × Node)
  | [] => []
  | n :: ns => n.leaves around ++ leavesAll around ns

end

mutual

theorem suffix_of_mem_leaves {leaf : List String × Node} : (around : List String) → (n : Node) →
    leaf ∈ n.leaves around → around <:+ leaf.1
  | around, .text s, h => by
    rw [leaves, List.mem_singleton] at h
    rw [h]
  | around, .var path position, h => by
    rw [leaves, List.mem_singleton] at h
    rw [h]
  | around, .sect name path position children, h => by
    rw [leaves] at h
    exact (List.suffix_cons name around).trans (suffix_of_mem_leavesAll _ children h)

theorem suffix_of_mem_leavesAll {leaf : List String × Node} : (around : List String) →
    (ns : List Node) → leaf ∈ leavesAll around ns → around <:+ leaf.1
  | around, [], h => by
    rw [leavesAll] at h
    contradiction
  | around, n :: ns, h => by
    rw [leavesAll] at h
    rcases List.mem_append.mp h with hHead | hTail
    · exact suffix_of_mem_leaves around n hHead
    · exact suffix_of_mem_leavesAll around ns hTail

end

/-- The leaves all of whose sections are those of the document itself. -/
def bare (found : List (List String × Node)) : List Node :=
  (found.filter fun leaf => leaf.1.all (· == ".")).map Prod.snd

def words? : Node → Option String
  | .text s => some s
  | .var _ _ | .sect _ _ _ _ => none

def missing? : Node → Option Diagnostic
  | .var path position => some (.missingVariable path.text position)
  | .text _ | .sect _ _ _ _ => none

/-- The texts of the nodes, and a report for each variable among them. -/
def skeleton (ns : List Node) : Outcome :=
  ⟨String.join (ns.filterMap words?), ns.filterMap missing?⟩

theorem skeleton_append (as bs : List Node) : skeleton (as ++ bs) = skeleton as ++ skeleton bs := by
  rw [skeleton, List.filterMap_append, List.filterMap_append, String.join_append]
  rfl

theorem bare_append (as bs : List (List String × Node)) : bare (as ++ bs) = bare as ++ bare bs := by
  rw [bare, List.filter_append, List.map_append]
  rfl

/-- Nothing inside a section that has a name is bare. -/
theorem bare_leavesAll_of_ne {name : String} (h : name ≠ ".") (around : List String)
    (ns : List Node) : bare (leavesAll (name :: around) ns) = [] := by
  rw [bare, List.map_eq_nil_iff, List.filter_eq_nil_iff]
  intro leaf hLeaf hAll
  have hName : name ∈ leaf.1 := (suffix_of_mem_leavesAll _ ns hLeaf).subset List.mem_cons_self
  exact h (eq_of_beq (List.all_eq_true.mp hAll name hName))

end Node

/-! ### Scopes without data -/

namespace Scope

/-- A scope over the empty document and nothing else. -/
structure Blank (s : Scope) : Prop where
  root : s.root = .empty
  inner : ∀ f ∈ s.inner, f = ⟨.empty, .block⟩

theorem resolve?_empty {segments : List String} (h : segments ≠ []) :
    Value.empty.resolve? segments = none := by
  cases segments with
  | nil => contradiction
  | cons => rfl

variable {s : Scope}

theorem Blank.lookup? (h : s.Blank) {p : Path} (hp : p.isEmpty = false) : s.lookup? p = none := by
  have hSegments : p.segments ≠ [] := by
    simpa [Path.isEmpty] using hp
  have hFrame : (⟨.empty, .block⟩ : Frame).lookup? p = none := by
    rw [Frame.lookup?_block, resolve?_empty hSegments]
  rw [Scope.lookup?, h.root]
  split
  · exact resolve?_empty hSegments
  · rw [List.findSome?_eq_none_iff]
    intro f hf
    rcases List.mem_append.mp hf with hInner | hRoot
    · rw [h.inner f hInner, hFrame]
    · rw [List.mem_singleton.mp hRoot, h.root, hFrame]

theorem Blank.push (h : s.Blank) : (s.push ⟨s.root, .block⟩).Blank where
  root := h.root
  inner := List.forall_mem_cons.mpr ⟨by rw [h.root], h.inner⟩

end Scope

/-! ### The skeleton of a template -/

namespace Node

/-- What the directives of a text make: variables have segments, and only the section of the
document itself has a path without any. -/
def Regular : List Node → Prop :=
  EachAll (fun path _ => path.isEmpty = false) fun name path _ =>
    path = Path.parse name ∧ name ≠ ""

mutual

theorem emit_blank {s : Scope} (hs : s.Blank) {around : List String}
    (hAround : around.all (· == ".") = true) {depth : Nat} : (n : Node) →
    depth + n.height ≤ maxSectionDepth → Regular [n] →
      n.emit s depth = skeleton (bare (n.leaves around))
  | .text t, _, _ => by
    rw [emit, leaves, bare, List.filter_singleton, hAround]
    simp [skeleton, words?, missing?]
  | .var path position, _, h => by
    have hPath : path.isEmpty = false := h.1
    rw [emit, if_neg (by simp [hPath]), hs.lookup? hPath, leaves, bare, List.filter_singleton,
      hAround]
    rfl
  | .sect name path position children, hDepth, h => by
    obtain ⟨⟨⟨rfl, hName⟩, hChildren⟩, -⟩ := h
    rw [height] at hDepth
    rw [emit, if_neg (by omega), leaves]
    -- The document's own section has one pass, in a scope that is blank again; any other has none.
    by_cases hDot : name = "."
    · have hPasses : s.passes name (Path.parse name) = [some ⟨s.root, .block⟩] := by
        rw [hDot]
        rfl
      have hInside : (name :: around).all (· == ".") = true := by
        rw [List.all_cons, hAround, hDot]
        rfl
      rw [hPasses, List.map_singleton, Outcome.join_singleton]
      exact emitAll_blank hs.push hInside children (by omega) hChildren
    · have hPath : (Path.parse name).isEmpty = false := by
        rw [Bool.eq_false_iff, Ne, Path.isEmpty_parse_iff]
        tauto
      have hPasses : s.passes name (Path.parse name) = [] := by
        rw [Scope.passes, if_neg (by simp [hPath]), hs.lookup? hPath]
      rw [hPasses, bare_leavesAll_of_ne hDot]
      rfl

theorem emitAll_blank {s : Scope} (hs : s.Blank) {around : List String}
    (hAround : around.all (· == ".") = true) {depth : Nat} : (ns : List Node) →
    depth + heights ns ≤ maxSectionDepth → Regular ns →
      emitAll s depth ns = skeleton (bare (leavesAll around ns))
  | [], _, _ => by
    rw [emitAll, leavesAll]
    rfl
  | n :: ns, hDepth, h => by
    rw [heights] at hDepth
    rw [emitAll, leavesAll, bare_append, skeleton_append,
      emit_blank hs hAround n (by omega) ⟨h.1, trivial⟩,
      emitAll_blank hs hAround ns (by omega) h.2]

end

end Node

namespace Template

theorem regular_compile (raw : String) : Node.Regular (compile raw).root.children := by
  refine eachAll_compile fun t ht => ?_
  have hKind := (canonical_scan raw).kinds t ht
  obtain ⟨kind, start, length⟩ := t
  cases kind with
  | literal | closing => trivial
  | opening name =>
    have hName : IsName name.toList := hKind.1
    exact ⟨rfl, fun hEmpty => hName.1 (by rw [hEmpty]; rfl)⟩
  | var path =>
    have hPath : IsPath path.toList := hKind
    refine Bool.eq_false_iff.mpr fun hEmpty => ?_
    rcases Path.isEmpty_parse_iff.mp hEmpty with rfl | rfl
    · exact hPath
    · exact absurd hPath (by decide)

/-- Without data, a document is made of the texts that stand in no section with a name, and what is
reported after the repairs is each variable there, once and at its own place. -/
theorem render_empty (raw : String) :
    let bare := Node.bare (Node.leavesAll [] (compile raw).root.children)
    (compile raw).render .empty =
      ⟨String.join (bare.filterMap Node.words?),
        (compile raw).diagnostics ++ bare.filterMap Node.missing?⟩ := by
  intro bare
  have hBlank : (Scope.ofRoot .empty).Blank := ⟨rfl, by simp [Scope.ofRoot]⟩
  have hHeights := Node.heights_ofTokens (Balanced.isNested_ofTokens (scan raw))
  have hRoot : (compile raw).root.render .empty = Node.skeleton bare := by
    rw [Node.render_eq_emitAll]
    exact Node.emitAll_blank hBlank rfl _ (by rwa [Nat.zero_add]) (regular_compile raw)
  rw [render, hRoot]
  rfl

end Template
end DocTemplate
